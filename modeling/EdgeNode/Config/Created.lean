import EdgeNode.Config.Identity
import Mathlib.Data.List.Forall2

/-! What `FTE_CFG_OBJ_create` leaves to its caller, and in the pool. -/

namespace EdgeNode.Config

section Definitions

variable (product : Product)

/-- The slots that the children get. -/
def objChildConfigs (nID ulGroupID : UInt32) : ObjectPool → List ObjectConfig → List ObjectConfig
  | _, [] => []
  | p, child :: rest =>
    let p' := objCreateChild product nID ulGroupID p child
    match objAlloc product p with
    | none => objChildConfigs nID ulGroupID p' rest
    | some (i, _) => p'.pObjects.getD i zeroObject :: objChildConfigs nID ulGroupID p' rest

/-- What `FTE_CFG_OBJ_create` leaves in `ppNewConfig` and `pChildObjects`. -/
def objCreated (pBase : ObjectConfig) (pChild : Nat → ObjectConfig) (ulMaxCount : Nat) (r : Ram) :
    Option (ObjectConfig × List ObjectConfig) :=
  match objAlloc product (r.page .object).body with
  | none => none
  | some (i, p) =>
    let ulIndexID := objCount (pBase.nID &&& objClassMask) objClassMask p + 1
    let ulGroupID := if pBase.ulChild ≠ 0 then ulIndexID else 0
    let nID := (pBase.nID &&& objTypeMask) ||| (ulGroupID <<< 8) ||| ulIndexID
    let pConfig := { pBase with nID := nID, pName := indexedName pBase.pName ulIndexID }
    let p := { p with pObjects := p.pObjects.set i pConfig }
    let children := (List.range pBase.ulChild.toNat).map pChild
    some (pConfig, (objChildConfigs product nID ulGroupID p children).take ulMaxCount)

end Definitions

variable {product : Product} {p : ObjectPool} {nID ulGroupID : UInt32} {r : Ram}

/-- A slot that was filled from the configuration of a child. -/
def ChildOf (nID : UInt32) (child config : ObjectConfig) : Prop :=
  ∃ n pName, config = { child with nID := n, pName, xReserved := child.xReserved.set 0 nID }

theorem objCreateChild_slot {child : ObjectConfig} {i : Nat} {p₁ : ObjectPool}
    (h : objAlloc product p = some (i, p₁)) :
    ChildOf nID child ((objCreateChild product nID ulGroupID p child).pObjects.getD i zeroObject) := by
  obtain ⟨hi, -, hsame, -⟩ := objAlloc_cases h
  rw [objCreateChild, h]
  dsimp only
  rw [List.getD_eq_getElem?_getD, List.getElem?_set_self (by rwa [hsame]), Option.getD_some]
  exact ⟨_, _, rfl⟩

theorem objCreateChild_count (product : Product) (nID ulGroupID : UInt32) (p : ObjectPool)
    (child : ObjectConfig) : ∃ k ≤ 1,
    (objCreateChild product nID ulGroupID p child).uiObjectCount = p.uiObjectCount + UInt32.ofNat k := by
  rw [objCreateChild]
  split
  next => exact ⟨0, Nat.zero_le _, (UInt32.add_zero _).symm⟩
  next i p₁ h =>
    obtain ⟨-, -, -, hcount⟩ := objAlloc_cases h
    exact ⟨1, Nat.le_refl _, hcount⟩

theorem foldl_objCreateChild_count (product : Product) (nID ulGroupID : UInt32) (p : ObjectPool)
    (cs : List ObjectConfig) : ∃ k ≤ cs.length,
    (cs.foldl (objCreateChild product nID ulGroupID) p).uiObjectCount =
      p.uiObjectCount + UInt32.ofNat k := by
  induction cs generalizing p with
  | nil => exact ⟨0, Nat.le_refl _, (UInt32.add_zero _).symm⟩
  | cons child cs ih =>
    obtain ⟨k, hk, hcount⟩ := objCreateChild_count product nID ulGroupID p child
    obtain ⟨n, hn, hrest⟩ := ih (objCreateChild product nID ulGroupID p child)
    refine ⟨k + n, by rw [List.length_cons]; omega, ?_⟩
    rw [List.foldl_cons, hrest, hcount, UInt32.add_assoc, UInt32.ofNat_add]

theorem length_objChildConfigs (product : Product) (nID ulGroupID : UInt32) (p : ObjectPool)
    (cs : List ObjectConfig) :
    (objChildConfigs product nID ulGroupID p cs).length ≤ cs.length := by
  induction cs generalizing p with
  | nil => exact Nat.le_refl _
  | cons child cs ih =>
    rw [objChildConfigs]
    split
    · exact Nat.le_succ_of_le (ih _)
    · exact Nat.succ_le_succ (ih _)

/-- When none is left out, the slots are those of the children one by one. -/
theorem objChildConfigs_childOf {cs : List ObjectConfig}
    (h : (objChildConfigs product nID ulGroupID p cs).length = cs.length) :
    List.Forall₂ (ChildOf nID) cs (objChildConfigs product nID ulGroupID p cs) := by
  induction cs generalizing p with
  | nil => exact .nil
  | cons child cs ih =>
    rw [objChildConfigs] at h ⊢
    cases hi : objAlloc product p with
    | none =>
      have hle := length_objChildConfigs product nID ulGroupID
        (objCreateChild product nID ulGroupID p child) cs
      rw [hi, List.length_cons] at h
      dsimp only at h
      omega
    | some r =>
      rw [hi] at h
      exact .cons (objCreateChild_slot hi) (ih (Nat.succ.inj h))

theorem take_objChildConfigs {cs : List ObjectConfig} {n : Nat}
    (h : ((objChildConfigs product nID ulGroupID p cs).take n).length = cs.length) :
    List.Forall₂ (ChildOf nID) cs ((objChildConfigs product nID ulGroupID p cs).take n) := by
  have hle := length_objChildConfigs product nID ulGroupID p cs
  rw [List.length_take] at h
  rw [List.take_of_length_le (by omega)]
  exact objChildConfigs_childOf (by omega)

section Create

variable {pBase pConfig : ObjectConfig} {pChild : Nat → ObjectConfig} {ulMaxCount : Nat}
  {cs : List ObjectConfig}

theorem objCreate_of_none (h : objCreated product pBase pChild ulMaxCount r = none) :
    objCreate product pBase pChild r = (retNotEnoughMemory, r) := by
  rw [objCreated] at h
  rw [objCreate]
  cases hi : objAlloc product (r.page .object).body with
  | none => rfl
  | some x =>
    rw [hi] at h
    cases h

theorem objCreated_config (h : objCreated product pBase pChild ulMaxCount r = some (pConfig, cs)) :
    pConfig.xReserved = pBase.xReserved := by
  rw [objCreated] at h
  split at h
  next => cases h
  next =>
    cases h
    rfl

theorem objCreated_childOf (h : objCreated product pBase pChild ulMaxCount r = some (pConfig, cs))
    (hlength : cs.length = pBase.ulChild.toNat) :
    List.Forall₂ (ChildOf pConfig.nID) ((List.range pBase.ulChild.toNat).map pChild) cs := by
  rw [objCreated] at h
  split at h
  next => cases h
  next i p hi =>
    cases h
    exact take_objChildConfigs (by rw [hlength, List.length_map, List.length_range])

/-- A pool with a new object is another pool. -/
theorem objCreate_ne (h : objCreated product pBase pChild ulMaxCount r = some (pConfig, cs))
    (hchild : pBase.ulChild ≠ 0xFFFFFFFF) : (objCreate product pBase pChild r).2 ≠ r := by
  rw [objCreated] at h
  split at h
  next => cases h
  next i p hi =>
    obtain ⟨-, -, -, hcount⟩ := objAlloc_cases hi
    rw [objCreate, hi]
    intro heq
    have hbody := congrArg (fun r : Ram => (r.page .object).body.uiObjectCount) heq
    dsimp only [Ram.modify] at hbody
    rw [Function.update_self] at hbody
    dsimp only at hbody
    obtain ⟨k, hk, hrest⟩ := foldl_objCreateChild_count product _ _ _
      ((List.range pBase.ulChild.toNat).map pChild)
    rw [hrest, hcount] at hbody
    rw [List.length_map, List.length_range] at hk
    have hchild : pBase.ulChild.toNat ≠ 0xFFFFFFFF := fun h => hchild (UInt32.toNat_inj.mp h)
    have hword := pBase.ulChild.toNat_lt
    have hcounts := congrArg UInt32.toNat hbody
    rw [UInt32.toNat_add, UInt32.toNat_add, UInt32.toNat_ofNat'] at hcounts
    change ((_ + 1) % 2 ^ 32 + k % 2 ^ 32) % 2 ^ 32 = _ at hcounts
    have hlt := (r.page .object).body.uiObjectCount.toNat_lt
    omega

end Create

end EdgeNode.Config
