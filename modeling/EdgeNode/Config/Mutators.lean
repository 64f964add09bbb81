import EdgeNode.Config.Pools

/-! The functions that change the pools in RAM. -/

namespace EdgeNode.Config

def objClassMask : UInt32 := 0x7F000000
def objTypeMask : UInt32 := 0x7FFF0000
def maxObjectNameLen : Nat := 16

/-- Change the body of a pool and mark the pool as modified. -/
def Ram.modify (k : Kind) (f : Body k → Body k) (r : Ram) : Ram where
  page := Function.update r.page k { r.page k with body := f (r.page k).body }
  modified := Function.update r.modified k true

/-- Change the body of a pool and leave its flag. -/
def Ram.change (k : Kind) (f : Body k → Body k) (r : Ram) : Ram :=
  { r with page := Function.update r.page k { r.page k with body := f (r.page k).body } }

def Ram.setTag (k : Kind) (r : Ram) : Ram :=
  { r with page := Function.update r.page k { r.page k with ulTag := poolVersion } }

def cString (l : List UInt8) : List UInt8 := l.takeWhile (· ≠ 0)

def strcpy (dst src : List UInt8) : List UInt8 :=
  cString src ++ [0] ++ dst.drop ((cString src).length + 1)

def strncpy (dst src : List UInt8) (n : Nat) : List UInt8 :=
  (cString src ++ List.replicate n 0).take n ++ dst.drop n

/-- `snprintf(pName, MAX_OBJECT_NAME_LEN, "%s-%04x", pBase, n)`. -/
def indexedName (pBase : List UInt8) (n : UInt32) : List UInt8 :=
  let hex := (Nat.toDigits 16 n.toNat).map fun c => UInt8.ofNat c.toNat
  (cString pBase ++ 45 :: hex.leftpad 4 48).take (maxObjectNameLen - 1)

section Main

variable (product : Product)

def setLocation (pLocation : List UInt8) (nLen : Nat) (r : Ram) : Ret × Ram :=
  if product.locationMaxLen < nLen then (retInvalidSize, r)
  else (retOk, r.modify .main fun p => { p with pLocation := strncpy p.pLocation pLocation nLen })

def netSet (pCfgNet : NetConfig) (r : Ram) : Ret × Ram :=
  (retOk, r.modify .main fun p => { p with xNetwork := pCfgNet })

def netSetIP (xIP : UInt32) (r : Ram) : Ret × Ram :=
  (retOk, r.modify .main fun p => { p with xNetwork := { p.xNetwork with ip := xIP } })

def netSetNetmask (xNetmask : UInt32) (r : Ram) : Ret × Ram :=
  (retOk, r.modify .main fun p => { p with xNetwork := { p.xNetwork with mask := xNetmask } })

def netSetGatewayIP (xIP : UInt32) (r : Ram) : Ret × Ram :=
  (retOk, r.modify .main fun p => { p with xNetwork := { p.xNetwork with gateway := xIP } })

def setTrap (f : TrapConfig → TrapConfig) (p : MainPool) : MainPool :=
  { p with xNetwork := { p.xNetwork with xTrap := f p.xNetwork.xTrap } }

def netTrapClear (r : Ram) : Ret × Ram :=
  (retOk, r.modify .main (setTrap fun t =>
    { t with ulCount := 0, pList := List.replicate product.trapCount 0 }))

def netTrapIsExist (nTrapIP : UInt32) (t : TrapConfig) : Bool :=
  nTrapIP ≠ 0 && t.ulCount ≠ 0 && t.pList.contains nTrapIP

def netTrapAddIP (xIP : UInt32) (r : Ram) : Ret × Ram :=
  let t := (r.page .main).body.xNetwork.xTrap
  if netTrapIsExist xIP t then (retOk, r)
  else if t.ulCount.toNat < product.trapCount then
    (retOk, r.modify .main (setTrap fun t =>
      { t with ulCount := t.ulCount + 1, pList := t.pList.set t.ulCount.toNat xIP }))
  else (retError, r)

/-- The last entry of the address goes, and the entries behind it move up. -/
def netTrapDelIP (xIP : UInt32) (r : Ram) : Ret × Ram :=
  let t := (r.page .main).body.xNetwork.xTrap
  let inUse := t.pList.take t.ulCount.toNat
  match inUse.reverse.findIdx? (· == xIP) with
  | none => (retOk, r)
  | some i => (retOk, r.modify .main (setTrap fun t =>
      { t with
        ulCount := t.ulCount - 1
        pList := inUse.eraseIdx (inUse.length - 1 - i) ++ 0 :: t.pList.drop t.ulCount.toNat }))

def sysSet (pConfig : SysConfig) (r : Ram) : Ret × Ram :=
  (retOk, r.modify .main fun p => { p with xSystem := pConfig })

def sysSetSystemMonitor (bStart : Bool) (r : Ram) : Ret × Ram :=
  (retOk, r.modify .main fun p => { p with xSystem := { p.xSystem with bSystemMonitor := bStart } })

def sysSetKeepAliveTime (ulTime : UInt32) (r : Ram) : Ret × Ram :=
  if product.keepAliveTimeMax < ulTime then (retError, r)
  else (retOk, r.modify .main fun p =>
    { p with xSystem := { p.xSystem with ulKeepAliveTime := ulTime } })

def shellSet (pConfig : ShellConfig) (r : Ram) : Ret × Ram :=
  (retOk, r.modify .main fun p => { p with xShell := pConfig })

end Main

section Object

variable (product : Product)

def objGet (oid : UInt32) (p : ObjectPool) : Option Nat :=
  if p.uiObjectCount ≠ 0 then p.pObjects.findIdx? fun c => c.nID ≠ 0 && c.nID == oid else none

def objAlloc (p : ObjectPool) : Option (Nat × ObjectPool) :=
  if p.uiObjectCount.toNat ≠ product.objMaxCount then
    (p.pObjects.findIdx? fun c => c.nID == 0).map fun i =>
      (i, { p with uiObjectCount := p.uiObjectCount + 1 })
  else none

def objCount (ulType ulMask : UInt32) (p : ObjectPool) : UInt32 :=
  if ulType = 0 then p.uiObjectCount
  else UInt32.ofNat (p.pObjects.countP fun c => c.nID &&& ulMask == ulType)

/-- `FTE_CFG_OBJ_free` sets no flag. -/
def objFree (oid : UInt32) (r : Ram) : Ret × Ram :=
  let p := (r.page .object).body
  if p.uiObjectCount ≠ 0 then
    match p.pObjects.findIdx? fun c => c.nID == oid with
    | some i => (retOk, r.change .object fun p =>
        { p with uiObjectCount := p.uiObjectCount - 1, pObjects := p.pObjects.set i zeroObject })
    | none => (retError, r)
  else (retError, r)

def objSave (pConfig : ObjectConfig) (r : Ram) : Ret × Ram :=
  match objGet pConfig.nID (r.page .object).body with
  | none => (retError, r)
  | some i => (retOk, r.modify .object fun p => { p with pObjects := p.pObjects.set i pConfig })

/-- A child gets a slot, its name and identifier from the parent, or is left out for want of one. -/
def objCreateChild (nID ulGroupID : UInt32) (p : ObjectPool) (child : ObjectConfig) : ObjectPool :=
  match objAlloc product p with
  | none => p
  | some (i, p) =>
    let ulCount := objCount (child.nID &&& objClassMask) objClassMask p
    { p with pObjects := p.pObjects.set i { child with
        pName := indexedName child.pName (nID &&& 0xFFFF)
        xReserved := child.xReserved.set 0 nID
        nID := (child.nID &&& objTypeMask) ||| (ulGroupID <<< 8) ||| (ulCount + 1) } }

/-- `pChild` is what `pBase` points to. -/
def objCreate (pBase : ObjectConfig) (pChild : Nat → ObjectConfig) (r : Ram) : Ret × Ram :=
  match objAlloc product (r.page .object).body with
  | none => (retNotEnoughMemory, r)
  | some (i, p) =>
    let ulIndexID := objCount (pBase.nID &&& objClassMask) objClassMask p + 1
    let ulGroupID := if pBase.ulChild ≠ 0 then ulIndexID else 0
    let nID := (pBase.nID &&& objTypeMask) ||| (ulGroupID <<< 8) ||| ulIndexID
    let pConfig := { pBase with nID := nID, pName := indexedName pBase.pName ulIndexID }
    let p := { p with pObjects := p.pObjects.set i pConfig }
    let children := (List.range pBase.ulChild.toNat).map pChild
    (retOk, r.modify .object fun _ => children.foldl (objCreateChild product nID ulGroupID) p)

end Object

section Event

variable (product : Product)

def eventAlloc (p : EventPool) : Option Nat :=
  if p.uiEventCount.toNat ≠ product.eventMaxCount then
    p.pEvents.findIdx? fun e => e.ulEPID == 0
  else none

def eventCreate (pConfig : EventConfig) (r : Ram) : Ram :=
  match eventAlloc product (r.page .event).body with
  | none => r
  | some i => r.modify .event fun p =>
      { p with uiEventCount := p.uiEventCount + 1, pEvents := p.pEvents.set i pConfig }

/-- `FTE_CFG_EVENT_free` of the event in slot `i` sets no flag. -/
def eventFree (i : Nat) (r : Ram) : Ret × Ram :=
  if (r.page .event).body.uiEventCount ≠ 0 ∧ i < product.eventMaxCount then
    (retOk, r.change .event fun p =>
      { p with uiEventCount := p.uiEventCount - 1, pEvents := p.pEvents.set i zeroEvent })
  else (retError, r)

end Event

section Ext

variable (product : Product)

def extDefaults (p : ExtPool) : ExtPool := fun x => product.initDefaultExtConfig x (p x)

def extInit (r : Ram) : Ret × Ram :=
  (retOk, (r.setTag .ext).modify .ext (extDefaults product))

/-- The four setters of the ext pool, one for each section. -/
def setExtConfig (x : ExtSection) (pBuff : List UInt8) (r : Ram) : Ret × Ram :=
  if pBuff.length ≠ product.extLen x then (retError, r)
  else (retOk, r.modify .ext fun p => Function.update p x pBuff)

def ciasSetExtConfig (pBuff : List UInt8) (r : Ram) : Ret × Ram := setExtConfig product .cu pBuff r
def ioexSetExtConfig (pBuff : List UInt8) (r : Ram) : Ret × Ram := setExtConfig product .ioex pBuff r
def dotechSetExtConfig (pBuff : List UInt8) (r : Ram) : Ret × Ram :=
  setExtConfig product .dotech pBuff r
def dioNodeSetExtConfig (pBuff : List UInt8) (r : Ram) : Ret × Ram :=
  setExtConfig product .dioNode pBuff r

end Ext

/-- A call of one of the setters. -/
inductive Setter where
  | setLocation (pLocation : List UInt8) (nLen : Nat)
  | netSet (pCfgNet : NetConfig)
  | netSetIP (xIP : UInt32)
  | netSetNetmask (xNetmask : UInt32)
  | netSetGatewayIP (xIP : UInt32)
  | netTrapClear
  | netTrapAddIP (xIP : UInt32)
  | netTrapDelIP (xIP : UInt32)
  | sysSet (pConfig : SysConfig)
  | sysSetSystemMonitor (bStart : Bool)
  | sysSetKeepAliveTime (ulTime : UInt32)
  | shellSet (pConfig : ShellConfig)
  | objSave (pConfig : ObjectConfig)
  | objCreate (pBase : ObjectConfig) (pChild : Nat → ObjectConfig)
  | objFree (oid : UInt32)
  | eventCreate (pConfig : EventConfig)
  | eventFree (i : Nat)
  | ciasSetExtConfig (pBuff : List UInt8)
  | ioexSetExtConfig (pBuff : List UInt8)
  | dotechSetExtConfig (pBuff : List UInt8)
  | dioNodeSetExtConfig (pBuff : List UInt8)

def Setter.apply (product : Product) : Setter → Ram → Ram
  | .setLocation pLocation nLen, r => (Config.setLocation product pLocation nLen r).2
  | .netSet pCfgNet, r => (Config.netSet pCfgNet r).2
  | .netSetIP xIP, r => (Config.netSetIP xIP r).2
  | .netSetNetmask xNetmask, r => (Config.netSetNetmask xNetmask r).2
  | .netSetGatewayIP xIP, r => (Config.netSetGatewayIP xIP r).2
  | .netTrapClear, r => (Config.netTrapClear product r).2
  | .netTrapAddIP xIP, r => (Config.netTrapAddIP product xIP r).2
  | .netTrapDelIP xIP, r => (Config.netTrapDelIP xIP r).2
  | .sysSet pConfig, r => (Config.sysSet pConfig r).2
  | .sysSetSystemMonitor bStart, r => (Config.sysSetSystemMonitor bStart r).2
  | .sysSetKeepAliveTime ulTime, r => (Config.sysSetKeepAliveTime product ulTime r).2
  | .shellSet pConfig, r => (Config.shellSet pConfig r).2
  | .objSave pConfig, r => (Config.objSave pConfig r).2
  | .objCreate pBase pChild, r => (Config.objCreate product pBase pChild r).2
  | .objFree oid, r => (Config.objFree oid r).2
  | .eventCreate pConfig, r => Config.eventCreate product pConfig r
  | .eventFree i, r => (Config.eventFree product i r).2
  | .ciasSetExtConfig pBuff, r => (Config.ciasSetExtConfig product pBuff r).2
  | .ioexSetExtConfig pBuff, r => (Config.ioexSetExtConfig product pBuff r).2
  | .dotechSetExtConfig pBuff, r => (Config.dotechSetExtConfig product pBuff r).2
  | .dioNodeSetExtConfig pBuff, r => (Config.dioNodeSetExtConfig product pBuff r).2

/-- The setters that mark the pool they change. -/
def Setter.marks : Setter → Bool
  | .objFree _ | .eventFree _ => false
  | _ => true

/-- What a setter can do: nothing, a change with its flag, or for two of them one without. -/
theorem Setter.apply_cases (product : Product) (x : Setter) (r : Ram) :
    x.apply product r = r ∨ (∃ k f, x.apply product r = r.modify k f) ∨
      x.marks = false ∧ ∃ k f, x.apply product r = r.change k f := by
  cases x with
  | netSet | netSetIP | netSetNetmask | netSetGatewayIP | netTrapClear | sysSet
  | sysSetSystemMonitor | shellSet =>
    simp only [apply, Config.netSet, Config.netSetIP, Config.netSetNetmask,
      Config.netSetGatewayIP, Config.netTrapClear, Config.sysSet, Config.sysSetSystemMonitor,
      Config.shellSet]
    exact .inr (.inl ⟨.main, _, rfl⟩)
  | setLocation pLocation nLen =>
    simp only [apply, Config.setLocation]
    split <;> dsimp only
    · exact .inl rfl
    · exact .inr (.inl ⟨.main, _, rfl⟩)
  | netTrapAddIP xIP =>
    simp only [apply, Config.netTrapAddIP]
    split
    · exact .inl rfl
    · split <;> dsimp only
      · exact .inr (.inl ⟨.main, _, rfl⟩)
      · exact .inl rfl
  | netTrapDelIP xIP =>
    simp only [apply, Config.netTrapDelIP]
    split <;> dsimp only
    · exact .inl rfl
    · exact .inr (.inl ⟨.main, _, rfl⟩)
  | sysSetKeepAliveTime ulTime =>
    simp only [apply, Config.sysSetKeepAliveTime]
    split <;> dsimp only
    · exact .inl rfl
    · exact .inr (.inl ⟨.main, _, rfl⟩)
  | objSave pConfig =>
    simp only [apply, Config.objSave]
    split <;> dsimp only
    · exact .inl rfl
    · exact .inr (.inl ⟨.object, _, rfl⟩)
  | objCreate pBase pChild =>
    simp only [apply, Config.objCreate]
    split <;> dsimp only
    · exact .inl rfl
    · exact .inr (.inl ⟨.object, _, rfl⟩)
  | objFree oid =>
    simp only [apply, Config.objFree]
    split
    · split <;> dsimp only
      · exact .inr (.inr ⟨rfl, .object, _, rfl⟩)
      · exact .inl rfl
    · exact .inl rfl
  | eventCreate pConfig =>
    simp only [apply, Config.eventCreate]
    split
    · exact .inl rfl
    · exact .inr (.inl ⟨.event, _, rfl⟩)
  | eventFree i =>
    simp only [apply, Config.eventFree]
    split <;> dsimp only
    · exact .inr (.inr ⟨rfl, .event, _, rfl⟩)
    · exact .inl rfl
  | ciasSetExtConfig pBuff | ioexSetExtConfig pBuff | dotechSetExtConfig pBuff
  | dioNodeSetExtConfig pBuff =>
    simp only [apply, Config.ciasSetExtConfig, Config.ioexSetExtConfig, Config.dotechSetExtConfig,
      Config.dioNodeSetExtConfig, setExtConfig]
    split <;> dsimp only
    · exact .inl rfl
    · exact .inr (.inl ⟨.ext, _, rfl⟩)

end EdgeNode.Config
