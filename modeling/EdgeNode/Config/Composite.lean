import EdgeNode.Config.Counters
import EdgeNode.Config.Created

/-! `FTE_CFG_OBJ_create` of an object with children, for which the pool may have no room. -/

namespace EdgeNode.Config

section Definitions

/-- A pool and the pool with configurations put into its empty slots, one after the other. -/
inductive Added : ObjectPool → List ObjectConfig → ObjectPool → Prop
  | nil (p : ObjectPool) : Added p [] p
  | cons {p p' : ObjectPool} {c : ObjectConfig} {cs : List ObjectConfig} (i : Nat)
      (hi : i < p.pObjects.length) (hempty : p.pObjects[i].nID = 0) (hc : c.nID ≠ 0)
      (hcs : Added ⟨p.uiObjectCount + 1, p.pObjects.set i c⟩ cs p') : Added p (c :: cs) p'

def vacant (p : ObjectPool) : Nat := p.pObjects.countP fun c => c.nID == 0

variable (product : Product)

/-- How many objects `FTE_CFG_OBJ_alloc` still gives out. -/
def room (p : ObjectPool) : Nat := min (vacant p) (product.objMaxCount - p.uiObjectCount.toNat)

/-- What `FTE_CFG_OBJ_create` leaves in `pChildObjects`, which may be `NULL`; `pulCount` gets its
length. -/
def objReported (pBase : ObjectConfig) (pChild : Nat → ObjectConfig) (pChildObjects : Bool)
    (ulMaxCount : Nat) (r : Ram) : Option (ObjectConfig × List ObjectConfig) :=
  objCreated product pBase pChild (if pChildObjects then ulMaxCount else 0) r

/-- The parent is configured by `pBase` but for its identifier and its name. -/
def ParentOf (pBase pConfig : ObjectConfig) : Prop :=
  ∃ nID pName, pConfig = { pBase with nID, pName }

/-- The parent and all of its children are added, and as many of them are reported as there is room
for; or the call fails and the pools are as they were. -/
def AllOrNothing (pBase : ObjectConfig) (pChild : Nat → ObjectConfig) (pChildObjects : Bool)
    (ulMaxCount : Nat) (r : Ram) : Prop :=
  ((objCreate product pBase pChild r).1 = retOk ∧ ∃ pConfig children reported,
    ParentOf pBase pConfig ∧
    List.Forall₂ (ChildOf pConfig.nID) ((List.range pBase.ulChild.toNat).map pChild) children ∧
    Added (r.page .object).body (pConfig :: children)
      ((objCreate product pBase pChild r).2.page .object).body ∧
    objReported product pBase pChild pChildObjects ulMaxCount r = some (pConfig, reported) ∧
    reported = children.take (if pChildObjects then ulMaxCount else 0)) ∨
  ((objCreate product pBase pChild r).1 ≠ retOk ∧ (objCreate product pBase pChild r).2 = r)

/-- The slots are an array, and the counter is not past it. -/
structure PoolFits (p : ObjectPool) : Prop where
  length : p.pObjects.length = product.objMaxCount
  count : p.uiObjectCount.toNat ≤ product.objMaxCount

end Definitions

section Room

variable {product : Product} {p p₁ p' : ObjectPool} {i : Nat} {c child : ObjectConfig}
  {cs : List ObjectConfig} {nID ulGroupID : UInt32}

theorem vacant_set (hi : i < p.pObjects.length) (hempty : p.pObjects[i].nID = 0) (hc : c.nID ≠ 0)
    (count : UInt32) : vacant ⟨count, p.pObjects.set i c⟩ + 1 = vacant p := by
  have hpos : 0 < vacant p :=
    List.countP_pos_iff.mpr ⟨p.pObjects[i], List.getElem_mem hi, by simpa using hempty⟩
  rw [vacant, List.countP_set hi]
  simp only [hempty, beq_self_eq_true, if_true, beq_iff_eq, hc, if_false, Nat.add_zero]
  exact Nat.sub_add_cancel hpos

theorem Added.vacant (h : Added p cs p') : vacant p' + cs.length = vacant p := by
  induction h with
  | nil p => rfl
  | cons i hi hempty hc _ ih => rw [← vacant_set hi hempty hc, List.length_cons, ← ih, Nat.add_assoc]

theorem objAlloc_eq_none_iff (hp : PoolFits product p) :
    objAlloc product p = none ↔ room product p = 0 := by
  have hle := hp.count
  have hvacant : (p.pObjects.findIdx? fun c => c.nID == 0) = none ↔ vacant p = 0 := by
    rw [List.findIdx?_eq_none_iff, vacant, List.countP_eq_zero]
    simp
  unfold objAlloc room
  split
  next hne =>
    rw [Option.map_eq_none_iff, hvacant]
    omega
  next heq => exact iff_of_true rfl (by omega)

theorem PoolFits.put (hp : PoolFits product p) (hmax : product.objMaxCount < 2 ^ 32)
    (ha : objAlloc product p = some (i, p₁)) (hc : c.nID ≠ 0) :
    PoolFits product (p₁.put i c) ∧ room product (p₁.put i c) + 1 = room product p := by
  obtain ⟨hi, hz, hsame, hcount⟩ := objAlloc_cases ha
  have hroom : room product p ≠ 0 := by
    intro hnone
    rw [(objAlloc_eq_none_iff hp).mpr hnone] at ha
    cases ha
  have hlt : p.uiObjectCount.toNat < product.objMaxCount := by
    unfold room at hroom
    omega
  have hnext : (p.uiObjectCount + 1).toNat = p.uiObjectCount.toNat + 1 := by
    rw [UInt32.toNat_add, UInt32.toNat_one, Nat.mod_eq_of_lt (by omega)]
  have hvacant := vacant_set hi hz hc (p.uiObjectCount + 1)
  rw [ObjectPool.put, hsame, hcount]
  refine ⟨⟨by rw [List.length_set, hp.length], Nat.le_trans (Nat.le_of_eq hnext) hlt⟩, ?_⟩
  unfold room at hroom ⊢
  dsimp only
  omega

theorem newID_ne_zero_of_fits (hp : PoolFits product p) (hmax : product.objMaxCount + 1 < 2 ^ 32)
    (ha : objAlloc product p = some (i, p₁)) (t g ulType ulMask : UInt32) :
    newID t g (objCount ulType ulMask p₁ + 1) ≠ 0 := by
  obtain ⟨-, -, hsame, hcount⟩ := objAlloc_cases ha
  have hput := (hp.put (c := { zeroObject with nID := 1 }) (by omega) ha (by decide)).1.count
  refine newID_ne_zero ?_
  unfold objCount
  split
  · have hle : p₁.uiObjectCount.toNat ≤ product.objMaxCount := hput
    omega
  · have hle := List.countP_le_length (p := fun c : ObjectConfig => c.nID &&& ulMask == ulType)
      (l := p₁.pObjects)
    rw [UInt32.toNat_ofNat']
    rw [hsame, hp.length] at hle
    rw [hsame]
    exact Nat.lt_of_le_of_lt (Nat.succ_le_succ (Nat.le_trans (Nat.mod_le _ _) hle)) hmax

/-- A child without room is left out; else it gets a slot of its own. -/
theorem objCreateChild_cases (hp : PoolFits product p) (hmax : product.objMaxCount + 1 < 2 ^ 32)
    (nID ulGroupID : UInt32) (child : ObjectConfig) :
    room product p = 0 ∧ objAlloc product p = none ∧
      objCreateChild product nID ulGroupID p child = p ∨
    ∃ i p₁ c, objAlloc product p = some (i, p₁) ∧ c.nID ≠ 0 ∧ ChildOf nID child c ∧
      objCreateChild product nID ulGroupID p child = p₁.put i c := by
  unfold objCreateChild
  cases ha : objAlloc product p with
  | none => exact .inl ⟨(objAlloc_eq_none_iff hp).mp ha, rfl, rfl⟩
  | some x =>
    obtain ⟨i, p₁⟩ := x
    exact .inr ⟨i, p₁, _, rfl, newID_ne_zero_of_fits hp hmax ha _ _ _ _, ⟨_, _, rfl⟩, rfl⟩

theorem Added.put (ha : objAlloc product p = some (i, p₁)) (hc : c.nID ≠ 0)
    (h : Added (p₁.put i c) cs p') : Added p (c :: cs) p' := by
  obtain ⟨hi, hz, hsame, hcount⟩ := objAlloc_cases ha
  rw [ObjectPool.put, hsame, hcount] at h
  exact .cons i hi hz hc h

/-- Of the children as many get a slot as there is room. -/
theorem objCreateChildren_vacant (hmax : product.objMaxCount + 1 < 2 ^ 32) (nID ulGroupID : UInt32)
    (children : List ObjectConfig) (hp : PoolFits product p) :
    vacant (children.foldl (objCreateChild product nID ulGroupID) p) +
      min children.length (room product p) = vacant p := by
  induction children generalizing p with
  | nil => simp
  | cons child children ih =>
    rw [List.foldl_cons, List.length_cons]
    obtain ⟨hroom, -, hkeep⟩ | ⟨i, p₁, c, ha, hc, -, hput⟩ :=
      objCreateChild_cases hp hmax nID ulGroupID child
    · rw [hkeep]
      have hrest := ih hp
      omega
    · obtain ⟨hfits, hroom⟩ := hp.put (by omega) ha hc
      have hone := (Added.put ha hc (.nil _)).vacant
      have hrest := ih hfits
      rw [hput, ← hone, ← hrest, List.length_singleton]
      omega

theorem objCreateChildren_added (hmax : product.objMaxCount + 1 < 2 ^ 32) (nID ulGroupID : UInt32)
    (children : List ObjectConfig) (hp : PoolFits product p)
    (hroom : children.length ≤ room product p) :
    Added p (objChildConfigs product nID ulGroupID p children)
      (children.foldl (objCreateChild product nID ulGroupID) p) ∧
    List.Forall₂ (ChildOf nID) children (objChildConfigs product nID ulGroupID p children) := by
  induction children generalizing p with
  | nil => exact ⟨.nil p, .nil⟩
  | cons child children ih =>
    rw [List.length_cons] at hroom
    obtain ⟨hzero, -, -⟩ | ⟨i, p₁, c, ha, hc, hchild, hput⟩ :=
      objCreateChild_cases hp hmax nID ulGroupID child
    · omega
    · obtain ⟨hfits, hless⟩ := hp.put (by omega) ha hc
      obtain ⟨hi, -, hsame, -⟩ := objAlloc_cases ha
      have hslot : (p₁.put i c).pObjects.getD i zeroObject = c := by
        rw [ObjectPool.put, List.getD_eq_getElem?_getD, List.getElem?_set_self (by rwa [hsame])]
        rfl
      obtain ⟨hadded, hrest⟩ := ih hfits (by omega)
      rw [objChildConfigs, ha, List.foldl_cons, hput]
      dsimp only
      rw [hslot]
      exact ⟨hadded.put ha hc, .cons hchild hrest⟩

end Room

section Create

variable {product : Product} {r : Ram}

theorem objCreate_cases (hmax : product.objMaxCount + 1 < 2 ^ 32)
    (hp : PoolFits product (r.page .object).body) (pBase : ObjectConfig)
    (pChild : Nat → ObjectConfig) :
    room product (r.page .object).body = 0 ∧
      objCreate product pBase pChild r = (retNotEnoughMemory, r) ∨
    ∃ i p₁ ulGroupID pConfig, objAlloc product (r.page .object).body = some (i, p₁) ∧
      pConfig.nID ≠ 0 ∧ ParentOf pBase pConfig ∧
      objCreate product pBase pChild r = (retOk, r.modify .object fun _ =>
        ((List.range pBase.ulChild.toNat).map pChild).foldl
          (objCreateChild product pConfig.nID ulGroupID) (p₁.put i pConfig)) ∧
      ∀ ulMaxCount, objCreated product pBase pChild ulMaxCount r =
        some (pConfig, (objChildConfigs product pConfig.nID ulGroupID (p₁.put i pConfig)
          ((List.range pBase.ulChild.toNat).map pChild)).take ulMaxCount) := by
  unfold objCreate objCreated
  cases ha : objAlloc product (r.page .object).body with
  | none => exact .inl ⟨(objAlloc_eq_none_iff hp).mp ha, rfl⟩
  | some x =>
    obtain ⟨i, p₁⟩ := x
    exact .inr ⟨i, p₁, _, _, rfl, newID_ne_zero_of_fits hp hmax ha _ _ _ _, ⟨_, _, rfl⟩, rfl,
      fun _ => rfl⟩

theorem objCreate_body {pBase : ObjectConfig} {pChild : Nat → ObjectConfig} {p : ObjectPool}
    (h : objCreate product pBase pChild r = (retOk, r.modify .object fun _ => p)) :
    ((objCreate product pBase pChild r).2.page .object).body = p := by
  rw [h]
  simp only [Ram.modify, Function.update_self]

variable {pBase : ObjectConfig} {pChild : Nat → ObjectConfig} {pChildObjects : Bool}
  {ulMaxCount : Nat}

theorem AllOrNothing.room (h : AllOrNothing product pBase pChild pChildObjects ulMaxCount r)
    (hmax : product.objMaxCount + 1 < 2 ^ 32) (hp : PoolFits product (r.page .object).body) :
    room product (r.page .object).body = 0 ∨
      pBase.ulChild.toNat + 1 ≤ room product (r.page .object).body := by
  have hlength : ((List.range pBase.ulChild.toNat).map pChild).length = pBase.ulChild.toNat := by
    rw [List.length_map, List.length_range]
  obtain ⟨hroom, -⟩ | ⟨i, p₁, ulGroupID, pConfig, ha, hc, -, hcreate, -⟩ :=
    objCreate_cases hmax hp pBase pChild
  · exact .inl hroom
  obtain ⟨-, pConfig', children, reported, -, hchildren, hadded, -⟩ | ⟨hfail, -⟩ := h
  · obtain ⟨hfits, hless⟩ := hp.put (by omega) ha hc
    have hone := (Added.put ha hc (.nil _)).vacant
    have hmade := objCreateChildren_vacant hmax pConfig.nID ulGroupID
      ((List.range pBase.ulChild.toNat).map pChild) hfits
    have hcount := hchildren.length_eq
    rw [objCreate_body hcreate] at hadded
    have hall := hadded.vacant
    rw [hlength] at hmade hcount
    rw [List.length_cons, ← hcount] at hall
    rw [List.length_singleton] at hone
    exact .inr (by omega)
  · rw [hcreate] at hfail
    exact absurd rfl hfail

theorem allOrNothing_of_room (hmax : product.objMaxCount + 1 < 2 ^ 32)
    (hp : PoolFits product (r.page .object).body)
    (hroom : room product (r.page .object).body = 0 ∨
      pBase.ulChild.toNat + 1 ≤ room product (r.page .object).body) :
    AllOrNothing product pBase pChild pChildObjects ulMaxCount r := by
  obtain ⟨-, hcreate⟩ | ⟨i, p₁, ulGroupID, pConfig, ha, hc, hparent, hcreate, hcreated⟩ :=
    objCreate_cases hmax hp pBase pChild
  · refine .inr ⟨?_, by rw [hcreate]⟩
    rw [hcreate]
    exact show retNotEnoughMemory ≠ retOk by decide
  · obtain ⟨hfits, hless⟩ := hp.put (by omega) ha hc
    obtain ⟨hadded, hchildren⟩ := objCreateChildren_added hmax pConfig.nID ulGroupID
      ((List.range pBase.ulChild.toNat).map pChild) hfits
      (by rw [List.length_map, List.length_range]; omega)
    refine .inl ⟨by rw [hcreate], pConfig, _, _, hparent, hchildren, ?_, hcreated _, rfl⟩
    rw [objCreate_body hcreate]
    exact hadded.put ha hc

/-- A composite object is added whole or not at all exactly when the pool is full, or has room for
the parent and all of its children. -/
theorem objCreate_allOrNothing_iff (hmax : product.objMaxCount + 1 < 2 ^ 32)
    (hp : PoolFits product (r.page .object).body) (pBase : ObjectConfig)
    (pChild : Nat → ObjectConfig) (pChildObjects : Bool) (ulMaxCount : Nat) :
    AllOrNothing product pBase pChild pChildObjects ulMaxCount r ↔
      room product (r.page .object).body = 0 ∨
        pBase.ulChild.toNat + 1 ≤ room product (r.page .object).body :=
  ⟨fun h => h.room hmax hp, allOrNothing_of_room hmax hp⟩

theorem poolFits_blank : PoolFits roomyProduct (blankRam.page .object).body :=
  ⟨List.length_replicate, Nat.zero_le _⟩

/-- A unit with 33 children. -/
def crowdedBase : ObjectConfig := { sensorBase with ulChild := 33 }

/-- The pool of 33 slots takes the unit and 32 of its children, and the call succeeds. -/
theorem objCreate_crowded : ¬ AllOrNothing roomyProduct crowdedBase (fun _ => sensorBase) true 33
    blankRam := by
  intro h
  have hroom := h.room (by decide) poolFits_blank
  revert hroom
  decide

theorem objCreate_whole : AllOrNothing roomyProduct { sensorBase with ulChild := 2 }
    (fun _ => sensorBase) true 4 blankRam :=
  (objCreate_allOrNothing_iff (by decide) poolFits_blank _ _ _ _).mpr (.inr (by decide))

end Create

end EdgeNode.Config
