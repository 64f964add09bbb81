import EdgeNode.Obj.UnitCreation

/-! The creations of the drivers one by one, and when they keep the contract. -/

namespace EdgeNode.Obj

open Config

section Identifiers

theorem foldl_mod (pSlaveID : List UInt8) {m n : Nat} (h : m % 2 ^ 32 = n % 2 ^ 32) :
    pSlaveID.foldl (fun n c => n * 10 + (c - 48).toNat) m % 2 ^ 32 =
      pSlaveID.foldl (fun n c => n * 10 + (c - 48).toNat) n % 2 ^ 32 := by
  induction pSlaveID generalizing m n with
  | nil => exact h
  | cons c pSlaveID ih =>
    refine ih ?_
    dsimp only
    omega

theorem toNat_strToUint32 {pSlaveID : List UInt8} {ulValue ulSlaveID : UInt32}
    (h : strToUint32 ulValue pSlaveID = some ulSlaveID) : ulSlaveID.toNat =
      pSlaveID.foldl (fun n c => n * 10 + (c - 48).toNat) ulValue.toNat % 2 ^ 32 := by
  induction pSlaveID generalizing ulValue with
  | nil =>
    cases h
    exact (Nat.mod_eq_of_lt ulSlaveID.toNat_lt).symm
  | cons c pSlaveID ih =>
    rw [strToUint32] at h
    split at h
    next =>
      rw [ih h, List.foldl_cons]
      refine foldl_mod _ ?_
      rw [UInt32.toNat_add, UInt32.toNat_mul, UInt8.toNat_toUInt32]
      change ((ulValue.toNat * 10) % 2 ^ 32 + _) % 2 ^ 32 % 2 ^ 32 = _
      omega
    next => cases h

/-- The number is that of the string unless it does not fit a word. -/
theorem strToUint32_eq_slaveID {pSlaveID : List UInt8} {ulSlaveID : UInt32}
    (h : strToUint32 0 pSlaveID = some ulSlaveID) :
    ulSlaveID.toNat = slaveID pSlaveID ↔ slaveID pSlaveID < 2 ^ 32 := by
  rw [toNat_strToUint32 h]
  exact Nat.mod_eq_iff_lt (by decide)

theorem pSensorID_sensorWords (nModel nInterval : UInt32) (id : Fin 6 → UInt8) :
    pSensorID (nModel :: devUcs1 :: nInterval :: (sensorWords id ++ [0])) = id := by
  funext i
  have h0 := (id 0).toNat_lt
  have h1 := (id 1).toNat_lt
  have h2 := (id 2).toNat_lt
  have h3 := (id 3).toNat_lt
  have h4 := (id 4).toNat_lt
  have h5 := (id 5).toNat_lt
  rw [← UInt8.toNat_inj]
  match i with
  | 0 | 4 => simp [pSensorID, sensorWords, UInt8.toNat_ofNat']
  | 1 | 2 | 3 | 5 =>
    simp [pSensorID, sensorWords, UInt8.toNat_ofNat']
    omega

end Identifiers

inductive UnitCreate where
  | futuretekMs10 (pSlaveID : List UInt8)
  | futuretekKm21b20 (pSlaveID : List UInt8)
  | futuretekJcg06 (pSlaveID : List UInt8)
  | sohaMv250ht (pSlaveID : List UInt8)
  | dotechFx3d (pSlaveID : List UInt8)
  | tascon (xType : UInt32) (id : Fin 6 → UInt8)
  | tasconHem12 (id : Fin 6 → UInt8)
  | tasconHem12_06m (id : Fin 6 → UInt8)

namespace Units

variable {ο ε : Type} [DecidableEq ο] (product : Product) (desc : UInt32 → Option Desc)
  (retDuplicate : Ret) (u : Units ο ε) (calls : Nat → ObjectCalls ο)

def SlaveAllowed (d : UnitDriver) (pSlaveID : List UInt8) (base : UInt32 → ObjectConfig)
    (pChild : List ObjectConfig) (ulMaxCount : Nat) (duplicate : Ret) : Prop :=
  ∀ ulSlaveID ∈ strToUint32 0 pSlaveID,
    u.Allowed product desc d (slaveBase base pChild ulMaxCount duplicate ulSlaveID)
      (slaveID pSlaveID < 2 ^ 32) calls

def TasconAllowed (xType : UInt32) (id : Fin 6 → UInt8) : Prop :=
  match tasconModel xType id with
  | some (pBase, pChild) =>
    u.Allowed product desc .tascon (tasconBase retDuplicate id pBase pChild) True calls
  | none =>
    u.isDuplicate .tascon (fun c => decide (pSensorID c.xReserved = id)) → retDuplicate ≠ retOk

end Units

namespace UnitCreate

variable {ο ε : Type} [DecidableEq ο] (product : Product) (desc : UInt32 → Option Desc)
  (retDuplicate : Ret) (u : Units ο ε) (calls : Nat → ObjectCalls ο)

def call : UnitCreate → Option (UnitResult ο ε)
  | futuretekMs10 pSlaveID => u.futuretekMs10Create product desc calls pSlaveID
  | futuretekKm21b20 pSlaveID => u.futuretekKm21b20Create product desc calls pSlaveID
  | futuretekJcg06 pSlaveID => u.futuretekJcg06Create product desc calls pSlaveID
  | sohaMv250ht pSlaveID => u.sohaMv250htCreate product desc calls pSlaveID
  | dotechFx3d pSlaveID => u.dotechFx3dCreate product desc calls pSlaveID
  | tascon xType id => u.tasconCreate product desc calls retDuplicate id xType
  | tasconHem12 id => u.tasconHem12Create product desc calls retDuplicate id
  | tasconHem12_06m id => u.tasconHem12_06mCreate product desc calls retDuplicate id

/-- The children that belong to the unit. -/
def pChild : UnitCreate → List ObjectConfig
  | futuretekMs10 _ => ms10Children
  | futuretekKm21b20 _ => km21b20Children
  | futuretekJcg06 _ => jcg06Children
  | sohaMv250ht _ => mv250htChildren
  | dotechFx3d _ => fx3dChildren
  | tascon xType id => ((tasconModel xType id).map Prod.snd).getD []
  | tasconHem12 _ => hem12Children
  | tasconHem12_06m _ => hem12_06mChildren

/-- A configuration has the identifier that was asked for. -/
def carries : UnitCreate → List UInt32 → Prop
  | futuretekMs10 pSlaveID | futuretekKm21b20 pSlaveID | futuretekJcg06 pSlaveID
  | sohaMv250ht pSlaveID | dotechFx3d pSlaveID => fun words => (nSensorID words).toNat = slaveID pSlaveID
  | tascon _ id | tasconHem12 id | tasconHem12_06m id => fun words => pSensorID words = id

def Allowed : UnitCreate → Prop
  | futuretekMs10 pSlaveID =>
    u.SlaveAllowed product desc calls .futuretek pSlaveID ms10Config ms10Children 1 retOk
  | futuretekKm21b20 pSlaveID =>
    u.SlaveAllowed product desc calls .futuretek pSlaveID km21b20Config km21b20Children 1 retOk
  | futuretekJcg06 pSlaveID =>
    u.SlaveAllowed product desc calls .futuretek pSlaveID jcg06Config jcg06Children 3 retInvalidId
  | sohaMv250ht pSlaveID =>
    u.SlaveAllowed product desc calls .soha pSlaveID mv250htConfig mv250htChildren 3 retOk
  | dotechFx3d pSlaveID =>
    u.SlaveAllowed product desc calls .dotech pSlaveID fx3dConfig fx3dChildren 8 retOk
  | tascon xType id => u.TasconAllowed product desc retDuplicate calls xType id
  | tasconHem12 id => u.TasconAllowed product desc retDuplicate calls objTypeMultiHem12 id
  | tasconHem12_06m id => u.TasconAllowed product desc retDuplicate calls objTypeMultiHem12_06m id

end UnitCreate

namespace Units

variable {ο ε : Type} [DecidableEq ο] {product : Product} {desc : UInt32 → Option Desc}
  {retDuplicate : Ret} {u : Units ο ε} {calls : Nat → ObjectCalls ο} {r : UnitResult ο ε}

theorem wellFormed_slaveBase {base : UInt32 → ObjectConfig} {pChild : List ObjectConfig}
    {ulMaxCount : Nat} {duplicate : Ret} {ulChild : UInt32}
    (hchild : ∀ ulSlaveID, (base ulSlaveID).ulChild = ulChild) (hcount : ulChild.toNat = pChild.length)
    (hsome : pChild ≠ []) (hfew : ulChild ≠ 0xFFFFFFFF) (hwords : ∀ child ∈ pChild, child.xReserved ≠ [])
    (ulSlaveID : UInt32) : WellFormed (slaveBase base pChild ulMaxCount duplicate ulSlaveID) :=
  ⟨(congrArg _ (hchild ulSlaveID)).trans hcount, hsome, (hchild ulSlaveID).trans_ne hfew, hwords⟩

theorem slave_contract_iff {d : UnitDriver} {pSlaveID : List UInt8} {base : UInt32 → ObjectConfig}
    {pChild : List ObjectConfig} {ulMaxCount : Nat} {duplicate : Ret}
    (hm : ∀ ulSlaveID, WellFormed (slaveBase base pChild ulMaxCount duplicate ulSlaveID))
    (hbase : ∀ ulSlaveID, nSensorID (base ulSlaveID).xReserved = ulSlaveID)
    (h : u.slaveCreate product desc d pSlaveID calls base pChild ulMaxCount duplicate = some r) :
    u.Contract (fun words => (nSensorID words).toNat = slaveID pSlaveID) pChild r ↔
      u.SlaveAllowed product desc calls d pSlaveID base pChild ulMaxCount duplicate := by
  rw [slaveCreate] at h
  rw [SlaveAllowed]
  split at h
  next hnone =>
    cases h
    rw [contract_of_error (show retInvalidArgument ≠ retOk by decide), hnone]
    exact ⟨fun _ => nofun, fun _ => ⟨rfl, rfl, rfl⟩⟩
  next ulSlaveID hsome =>
    have hid : (nSensorID (slaveBase base pChild ulMaxCount duplicate ulSlaveID).pBase.xReserved).toNat =
        slaveID pSlaveID ↔ slaveID pSlaveID < 2 ^ 32 := by
      change (nSensorID (base ulSlaveID).xReserved).toNat = _ ↔ _
      rw [hbase]
      exact strToUint32_eq_slaveID hsome
    rw [hsome]
    simp only [Option.mem_def, Option.some.injEq, forall_eq']
    exact contract_iff (hm ulSlaveID) hid h

theorem tascon_contract_of_invalid {id : Fin 6 → UInt8} {xType : UInt32} {ts : List ObjectConfig}
    {carries : List UInt32 → Prop} (hnone : tasconModel xType id = none)
    (h : u.tasconCreate product desc calls retDuplicate id xType = some r) :
    u.Contract carries ts r ↔ u.TasconAllowed product desc retDuplicate calls xType id := by
  rw [tasconCreate, hnone] at h
  rw [TasconAllowed, hnone]
  cases h
  dsimp only
  cases hdup : u.isDuplicate .tascon (fun c => decide (pSensorID c.xReserved = id)) with
  | true =>
    rw [if_pos rfl]
    by_cases hret : retDuplicate = retOk
    · rw [hret, contract_of_ok]
      simp
    · rw [contract_of_error hret]
      exact ⟨fun _ _ => hret, fun _ => ⟨rfl, rfl, rfl⟩⟩
  | false =>
    rw [if_neg (by simp), contract_of_error (show retInvalidModel ≠ retOk by decide)]
    exact ⟨fun _ => nofun, fun _ => ⟨rfl, rfl, rfl⟩⟩

/-- The identifier of a TASCON unit is copied into its configuration byte by byte. -/
theorem tascon_contract_iff {id : Fin 6 → UInt8} {xType : UInt32} {pBase : ObjectConfig}
    {pChild : List ObjectConfig} (hmodel : tasconModel xType id = some (pBase, pChild))
    (h : u.tasconCreate product desc calls retDuplicate id xType = some r) :
    u.Contract (fun words => pSensorID words = id) pChild r ↔
      u.TasconAllowed product desc retDuplicate calls xType id := by
  rw [tasconCreate, hmodel] at h
  rw [TasconAllowed, hmodel]
  rw [tasconModel] at hmodel
  split at hmodel
  next =>
    cases hmodel
    refine contract_iff ⟨rfl, List.cons_ne_nil _ _, (show (1 : UInt32) ≠ _ by decide), ?_⟩ ?_ h
    · exact List.forall_mem_singleton.mpr nofun
    · exact iff_true_intro (pSensorID_sensorWords _ _ id)
  next =>
    split at hmodel
    next =>
      cases hmodel
      refine contract_iff ⟨rfl, List.cons_ne_nil _ _, (show (3 : UInt32) ≠ _ by decide), ?_⟩ ?_ h
      · simp [tasconBase, hem12_06mChildren, ifceConfig]
      · exact iff_true_intro (pSensorID_sensorWords _ _ id)
    next => cases hmodel

end Units

namespace UnitCreate

variable {ο ε : Type} [DecidableEq ο] {product : Product} {desc : UInt32 → Option Desc}
  {retDuplicate : Ret} {u : Units ο ε} {calls : Nat → ObjectCalls ο} {r : UnitResult ο ε}

theorem contract_iff_allowed {a : UnitCreate} (h : a.call product desc retDuplicate u calls = some r) :
    u.Contract a.carries a.pChild r ↔ a.Allowed product desc retDuplicate u calls := by
  cases a with
  | futuretekMs10 | futuretekKm21b20 | futuretekJcg06 | sohaMv250ht | dotechFx3d =>
    dsimp only [UnitCreate.pChild]
    exact Units.slave_contract_iff
      (Units.wellFormed_slaveBase (fun _ => rfl) rfl (by decide) (by decide) (by decide)) (fun _ => rfl) h
  | tascon xType id =>
    cases hmodel : tasconModel xType id with
    | none => exact Units.tascon_contract_of_invalid hmodel h
    | some x =>
      obtain ⟨pBase, pChild⟩ := x
      rw [UnitCreate.pChild, hmodel]
      exact Units.tascon_contract_iff hmodel h
  | tasconHem12 id =>
    have hmodel : tasconModel objTypeMultiHem12 id = none := rfl
    rw [call, Units.tasconHem12Create] at h
    exact Units.tascon_contract_of_invalid hmodel h
  | tasconHem12_06m id =>
    have hmodel : tasconModel objTypeMultiHem12_06m id = none := rfl
    rw [call, Units.tasconHem12_06mCreate] at h
    exact Units.tascon_contract_of_invalid hmodel h

section Runs

def noUnits : Units Nat Nat :=
  ⟨blankRam, World.empty, fun _ => SensorTable.cleared, fun _ => zeroObject⟩

/-- The class of sensor units, and interface objects. -/
def unitTypes (nID : UInt32) : Option Desc :=
  if nID &&& 0x7F000000 = 0x7E000000 then some .gus else some .ifce

/-- Nothing fails from the address on. -/
def granted (pObj i : Nat) : ObjectCalls Nat := ⟨pObj + i, true, some retOk, true, true⟩

def refused (i : Nat) : ObjectCalls Nat := ⟨i, false, some retOk, true, true⟩

def newMs10 : UnitCreate := futuretekMs10 [55]

theorem newMs10_allowed : newMs10.Allowed roomyProduct unitTypes 0 noUnits (granted 0) := by
  intro ulSlaveID hid
  obtain rfl : 7 = ulSlaveID := Option.some.inj hid
  rw [Units.Allowed, if_neg (by decide)]
  intro x hx
  obtain rfl := Option.some.inj hx
  refine ⟨⟨rfl, rfl, rfl, rfl⟩, rfl, by decide, rfl, fun i config hconfig => ?_⟩
  cases i with
  | zero =>
    obtain rfl := Option.some.inj hconfig
    exact ⟨rfl, rfl, rfl, rfl⟩
  | succ i => cases hconfig

theorem newMs10_complete : ∃ r,
    newMs10.call roomyProduct unitTypes 0 noUnits (granted 0) = some r ∧ r.ppObj = some 0 ∧
      noUnits.Contract newMs10.carries newMs10.pChild r := by
  obtain ⟨r, hr, hp⟩ : ∃ r, newMs10.call roomyProduct unitTypes 0 noUnits (granted 0) = some r ∧
    r.ppObj = some 0 := ⟨_, rfl, rfl⟩
  exact ⟨r, hr, hp, (contract_iff_allowed hr).mpr newMs10_allowed⟩

/-- The second of two creations is OK without a unit, and the first one leaves its slots when there is
no memory for the unit. -/
theorem newMs10_not_contract :
    (∃ r, newMs10.call roomyProduct unitTypes 0 noUnits (granted 0) = some r ∧
      ∃ r', newMs10.call roomyProduct unitTypes 0 r.units (granted 2) = some r' ∧ r'.xRet = retOk ∧
        ¬ r.units.Contract newMs10.carries newMs10.pChild r') ∧
    ∃ r, newMs10.call roomyProduct unitTypes 0 noUnits refused = some r ∧
      r.xRet = retNotEnoughMemory ∧ ¬ noUnits.Contract newMs10.carries newMs10.pChild r := by
  constructor
  · obtain ⟨r, hr, r', hr', hret, hp⟩ : ∃ r,
        newMs10.call roomyProduct unitTypes 0 noUnits (granted 0) = some r ∧
        ∃ r', newMs10.call roomyProduct unitTypes 0 r.units (granted 2) = some r' ∧
          r'.xRet = retOk ∧ r'.ppObj = none := ⟨_, rfl, _, rfl, rfl, rfl⟩
    refine ⟨r, hr, r', hr', hret, fun h => ?_⟩
    rw [Units.Contract, if_pos hret, hp] at h
    obtain ⟨pObj, hp, -⟩ := h
    cases hp
  · obtain ⟨r, hr, hret, hcount⟩ : ∃ r,
        newMs10.call roomyProduct unitTypes 0 noUnits refused = some r ∧ r.xRet = retNotEnoughMemory ∧
          (r.units.ram.page .object).body.uiObjectCount = 2 := ⟨_, rfl, rfl, rfl⟩
    refine ⟨r, hr, hret, fun h => ?_⟩
    rw [Units.Contract, if_neg (by rw [hret]; decide)] at h
    rw [h.1] at hcount
    cases hcount

end Runs

end UnitCreate

end EdgeNode.Obj
