import EdgeNode.Config.Mutators

/-! Reading the pools from flash, their defaults, and the writes of a save. -/

namespace EdgeNode.Config

/-- `nID & 0x01`. -/
def bankOf (nID : UInt32) : Bool := nID &&& 1 == 1

section Defaults

variable (product : Product)

def createObjects (r : Ram) : Ram :=
  product.pObjects.foldl (fun r o => (objCreate product o.1 o.2 r).2) r

def createEvents (r : Ram) : Ram := product.pEvents.foldl (fun r e => eventCreate product e r) r

/-- The system, shell and network settings of the product. -/
def setSections (r : Ram) : Ram :=
  (netSet product.pNetwork (shellSet product.pShell (sysSet product.pSystem r).2).2).2

def Ram.clearPage (k : Kind) (r : Ram) : Ram :=
  { r with page := Function.update r.page k (zeroPage product k) }

def setModel (p : MainPool) : MainPool := { p with pModel := strcpy p.pModel product.pModel }

/-- The defaults of a pool that `FTE_CFG_init` found in no bank. -/
def initDefaults (k : Kind) (r : Ram) : Ram :=
  if (r.page k).nID = 0 then
    match k with
    | .main => setSections product ((r.setTag .main).change .main (setModel product))
    | .object => createObjects product (r.setTag .object)
    | .event => createEvents product (r.setTag .event)
    | .ext => (extInit product r).2
  else r

/-- What `FTE_CFG_clear` and `FTE_CFG_clearObject` do to the RAM once the pools are zero. -/
def fillDefaults (r : Ram) : Ram :=
  let r := setSections product (r.setTag .main)
  let r := createObjects product (r.setTag .object)
  let r := createEvents product (r.setTag .event)
  (extInit product r).2

/-- `FTE_CFG_clear` up to its save. The identifiers go with the pools. -/
def clear (r : Ram) : Ram :=
  fillDefaults product (kinds.foldl (fun r k => r.clearPage product k) r)

/-- `FTE_CFG_clearObject` up to its save. -/
def clearObject (r : Ram) : Ram :=
  fillDefaults product ([Kind.object, .event, .ext].foldl (fun r k => r.clearPage product k) r)

end Defaults

section Store

variable (crc : ∀ k, UInt32 → UInt32 → Body k → UInt32) (product : Product)

/-- The pool that `FTE_CFG_init` reads from its two banks, zero if neither passes. -/
def loadPool (banks : Banks) (k : Kind) : Page (Body k) :=
  loadBank crc (loadBank crc (zeroPage product k) (banks k false)) (banks k true)

/-- The pools read at boot. The other three are looked for only where the first one was found. -/
def loadPools (banks : Banks) : Ram where
  page k := if k = .main ∨ (loadPool crc product banks .main).nID ≠ 0 then
      loadPool crc product banks k
    else zeroPage product k
  modified _ := false

/-- `FTE_CFG_init` up to its save. -/
def initRam (banks : Banks) : Ram :=
  kinds.foldl (fun r k => initDefaults product k r) (loadPools crc product banks)

/-- The next identifier and the CRC, as they stand before a bank is written. -/
def nextPage {k : Kind} (p : Page (Body k)) : Page (Body k) :=
  { p with nID := p.nID + 1, ulCRC := crc k p.ulTag (p.nID + 1) p.body }

def advance (k : Kind) (r : Ram) : Ram :=
  { r with page := Function.update r.page k (nextPage crc (r.page k)) }

end Store

/-- The bank writes of `FTE_CFG_save`, two for each pool; the second one is marked. -/
def savePlan (force : Bool) (r : Ram) : List (Kind × Bool) :=
  kinds.flatMap fun k => if force || r.modified k then [(k, false), (k, true)] else []

/-- The flag of a pool falls once its second write is over. -/
def endWrite (k : Kind) (second : Bool) (r : Ram) : Ram :=
  if second then { r with modified := Function.update r.modified k false } else r

def writeBank (k : Kind) (b : Bool) (p : Page (Body k)) (banks : Banks) : Banks :=
  Function.update banks k (Function.update (banks k) b p)

/-- `FTE_CFG_autoSave` saves when `FTE_CFG_isChanged` tells so, which looks at one flag. -/
def isChanged (r : Ram) : Bool := r.modified .main

def autoSavePlan (r : Ram) : List (Kind × Bool) := if isChanged r then savePlan false r else []

end EdgeNode.Config
