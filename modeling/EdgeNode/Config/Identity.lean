import EdgeNode.Config.System
import EdgeNode.Lib.Runs
import EdgeNode.Lib.Words
import Mathlib.Data.List.Nodup
import Mathlib.Data.List.Perm.Basic

/-! When the identifiers in the object pool are distinct. -/

namespace EdgeNode.Config

open Runs

def objTypeDS18B20 : UInt32 := 0x01020000
def objClassTemperature : UInt32 := 0x01000000
def ds18b20UpdateInterval : UInt32 := 10000

/-- `snprintf(pName, sizeof(pName), "%s-%d", "DS18B20", nOID)`. -/
def ds18b20Name (nOID : UInt32) : List UInt8 :=
  (("DS18B20-" ++ toString nOID.toInt32.toInt).toList.map fun c => UInt8.ofNat c.toNat).take
    maxObjectNameLen

section Create

/-- Whether the loop over `nIDs` finds an index that no identifier in the driver's list has. -/
def indexFree (pObjs : List UInt32) : Bool :=
  (List.range 255).any fun i => !pObjs.any fun o => (o &&& 0xFF).toNat == i + 1

variable (product : Product)

/-- `FTE_DS18B20_create`. `pObjs` are the identifiers in the list of the driver: one with the index 0
makes the loop over them write before `nIDs`, and where they leave no index free the new one is
whatever `nOID` holds. `created` is whether `FTE_OBJ_create` succeeds. No flag is set. -/
def ds18b20Create (pObjs : List UInt32) (nOID nBUSID : UInt32) (pROMCode : List UInt32)
    (created : Bool) (r : Ram) : Option Ram :=
  if pObjs.any fun o => o &&& 0xFF == 0 then none
  else
    let p := (r.page .object).body
    let nOID :=
      if indexFree pObjs then
        (objTypeDS18B20 &&& objTypeMask) |||
          ((objCount objClassTemperature objClassMask p + 1) &&& 0x0000FFFF)
      else nOID
    match objAlloc product p with
    | none => some r
    | some (i, p) =>
      let pConfig := p.pObjects.getD i zeroObject
      let r := r.change .object fun _ => { p with pObjects := p.pObjects.set i { pConfig with
        nID := nOID
        pName := ds18b20Name nOID
        xFlags := 0x00000003
        xReserved := nBUSID :: pROMCode ++ ds18b20UpdateInterval :: pConfig.xReserved.drop 4 } }
      some (if created then r else (objFree nOID r).2)

end Create

def idsOf (l : List ObjectConfig) : List UInt32 := (l.map ObjectConfig.nID).filter (· ≠ 0)

def ids (p : ObjectPool) : List UInt32 := idsOf p.pObjects

section Fields

/-- An identifier from a type, a group and an index. -/
def newID (t g i : UInt32) : UInt32 := (t &&& objTypeMask) ||| (g <<< 8) ||| i

theorem and_eq_zero_of_lt {n m k : Nat} (hn : n < 2 ^ k) (hm : m % 2 ^ k = 0) : n &&& m = 0 := by
  refine Nat.eq_of_testBit_eq fun i => ?_
  rw [Nat.testBit_and, Nat.zero_testBit, Bool.and_eq_false_iff]
  by_cases hi : i < k
  · have h := Nat.testBit_mod_two_pow m k i
    rw [hm, Nat.zero_testBit] at h
    exact .inr (by simpa [hi] using h.symm)
  · have hle : 2 ^ k ≤ 2 ^ i := Nat.pow_le_pow_right (by omega) (by omega)
    exact .inl (Nat.testBit_lt_two_pow (by omega))

theorem and_low {n : UInt32} (hn : n.toNat < 65536) : n &&& 0x0000FFFF = n := by
  rw [← UInt32.toNat_inj, UInt32.toNat_and]
  exact (Nat.and_two_pow_sub_one_eq_mod n.toNat 16).trans (Nat.mod_eq_of_lt hn)

variable {t g i : UInt32}

theorem toNat_newID (hg : g.toNat < 256) :
    (newID t g i).toNat = (t.toNat &&& objTypeMask.toNat) ||| g.toNat * 256 ||| i.toNat := by
  have hs : (g <<< 8).toNat = g.toNat * 256 := by
    have h8 : (8 : UInt32).toNat % 32 = 8 := by decide
    rw [UInt32.toNat_shiftLeft, h8, Nat.shiftLeft_eq, Nat.mod_eq_of_lt (by omega)]
  simp only [newID, UInt32.toNat_or, UInt32.toNat_and, hs]

theorem index_newID (hg : g.toNat < 256) (hi : i.toNat < 256) : newID t g i &&& 0xFF = i := by
  have hmask : objTypeMask.toNat &&& (0xFF : UInt32).toNat = 0 := by decide
  have hlow : ∀ n : Nat, n &&& (0xFF : UInt32).toNat = n % 256 := fun n =>
    Nat.and_two_pow_sub_one_eq_mod n 8
  rw [← UInt32.toNat_inj, UInt32.toNat_and, toNat_newID hg, Nat.and_or_distrib_right,
    Nat.and_or_distrib_right, Nat.and_assoc, hmask, hlow, hlow, Nat.and_zero, Nat.mul_mod_left,
    Nat.mod_eq_of_lt hi]
  simp

theorem class_newID (hg : g.toNat < 256) (hi : i.toNat < 256) :
    newID t g i &&& objClassMask = t &&& objClassMask := by
  have hmask : objTypeMask.toNat &&& objClassMask.toNat = objClassMask.toNat := by decide
  have hlow : ∀ n, n < 2 ^ 16 → n &&& objClassMask.toNat = 0 := fun n hn =>
    and_eq_zero_of_lt hn (by decide)
  rw [← UInt32.toNat_inj, UInt32.toNat_and, toNat_newID hg, Nat.and_or_distrib_right,
    Nat.and_or_distrib_right, Nat.and_assoc, hmask, hlow (g.toNat * 256) (by omega),
    hlow i.toNat (by omega), UInt32.toNat_and]
  simp

end Fields

section Pool

variable {l : List ObjectConfig} {i : Nat} {c : ObjectConfig}

theorem idsOf_perm {l m : List ObjectConfig} (h : l.Perm m) : (idsOf l).Perm (idsOf m) :=
  (h.map _).filter _

theorem idsOf_cons : idsOf (c :: l) = if c.nID = 0 then idsOf l else c.nID :: idsOf l := by
  by_cases h : c.nID = 0 <;> simp [idsOf, h]

theorem idsOf_set_free (hi : i < l.length) (hz : l[i].nID = 0) (hc : c.nID ≠ 0) :
    (idsOf (l.set i c)).Perm (c.nID :: idsOf l) := by
  have hset := idsOf_perm (List.set_perm_cons_eraseIdx hi c)
  have hget := idsOf_perm (List.getElem_cons_eraseIdx_perm hi)
  rw [idsOf_cons, if_neg hc] at hset
  rw [idsOf_cons, if_pos hz] at hget
  exact hset.trans (hget.cons _)

theorem idsOf_set_zero (hi : i < l.length) :
    (idsOf l).Perm (if l[i].nID = 0 then idsOf (l.set i zeroObject)
      else l[i].nID :: idsOf (l.set i zeroObject)) := by
  have hset := idsOf_perm (List.set_perm_cons_eraseIdx hi zeroObject)
  have hget := idsOf_perm (List.getElem_cons_eraseIdx_perm hi)
  rw [idsOf_cons, if_pos (by rfl)] at hset
  rw [idsOf_cons] at hget
  refine hget.symm.trans ?_
  split
  · exact hset.symm
  · exact hset.symm.cons _

theorem countP_idsOf {k : UInt32} (hk : k ≠ 0) :
    l.countP (fun c => c.nID &&& objClassMask == k) =
      (idsOf l).countP (fun nID => nID &&& objClassMask == k) := by
  induction l with
  | nil => rfl
  | cons c l ih =>
    rw [List.countP_cons, ih, idsOf_cons]
    by_cases hc : c.nID = 0
    · simp [hc, Ne.symm hk]
    · rw [if_neg hc, List.countP_cons]

end Pool

structure IdInv (p : ObjectPool) : Prop where
  unique : (ids p).Nodup
  length : p.pObjects.length < 255
  count : p.uiObjectCount.toNat ≤ (ids p).length

/-- No object of a class has one of the `n` indices behind their number. -/
def Ahead (p : ObjectPool) (ulClass : UInt32) (n : Nat) : Prop :=
  ∀ nID ∈ ids p, nID &&& objClassMask = ulClass →
    (nID &&& 0xFF).toNat ≤ (objCount ulClass objClassMask p).toNat ∨
      (objCount ulClass objClassMask p).toNat + n < (nID &&& 0xFF).toNat

/-- How many indices of a class the objects take; the number of class 0 is that of all objects. -/
def taken (ulClass : UInt32) (l : List ObjectConfig) : Nat :=
  l.countP fun c => ulClass == 0 || c.nID &&& objClassMask == ulClass

section Alloc

variable {product : Product} {p p₁ : ObjectPool} {i : Nat}

theorem objAlloc_cases (h : objAlloc product p = some (i, p₁)) :
    ∃ hi : i < p.pObjects.length, p.pObjects[i].nID = 0 ∧ p₁.pObjects = p.pObjects ∧
      p₁.uiObjectCount = p.uiObjectCount + 1 := by
  unfold objAlloc at h
  split at h
  · obtain ⟨j, hj, he⟩ := Option.map_eq_some_iff.mp h
    obtain ⟨hi, hz, -⟩ := List.findIdx?_eq_some_iff_getElem.mp hj
    cases he
    exact ⟨hi, by simpa using hz, rfl, rfl⟩
  · cases h

theorem toNat_objCount (hp : p.pObjects.length < 255) {k : UInt32} (hk : k ≠ 0) :
    (objCount k objClassMask p).toNat =
      (ids p).countP (fun nID => nID &&& objClassMask == k) := by
  have hle := List.countP_le_length (p := fun c : ObjectConfig => c.nID &&& objClassMask == k)
    (l := p.pObjects)
  rw [objCount, if_neg hk, UInt32.toNat_ofNat_of_lt' (by simp [UInt32.size]; omega), countP_idsOf hk]
  rfl

/-- The pool with an object in the slot that was allocated. -/
def ObjectPool.put (p : ObjectPool) (i : Nat) (c : ObjectConfig) : ObjectPool :=
  { p with pObjects := p.pObjects.set i c }

theorem ids_put (h : objAlloc product p = some (i, p₁)) {c : ObjectConfig} (hc : c.nID ≠ 0) :
    (ids (p₁.put i c)).Perm (c.nID :: ids p) := by
  obtain ⟨hi, hz, ho, -⟩ := objAlloc_cases h
  rw [ids, ObjectPool.put, ho]
  exact idsOf_set_free hi hz hc

theorem length_idsOf_le (l : List ObjectConfig) : (idsOf l).length ≤ l.length := by
  have h := List.length_filter_le (fun nID : UInt32 => decide (nID ≠ 0)) (l.map ObjectConfig.nID)
  rwa [List.length_map] at h

theorem length_ids_lt (h : objAlloc product p = some (i, p₁)) :
    (ids p).length < p.pObjects.length := by
  obtain ⟨-, -, ho, -⟩ := objAlloc_cases h
  have hput := ids_put h (c := { zeroObject with nID := 1 }) (by decide)
  have hle := length_idsOf_le (p₁.put i { zeroObject with nID := 1 }).pObjects
  rw [← ids, hput.length_eq, ObjectPool.put, List.length_set, ho] at hle
  exact hle

theorem toNat_alloc_count (hp : IdInv p) (h : objAlloc product p = some (i, p₁)) :
    p₁.uiObjectCount.toNat = p.uiObjectCount.toNat + 1 := by
  obtain ⟨-, -, -, hu⟩ := objAlloc_cases h
  have hlt := length_ids_lt h
  have := hp.length
  have := hp.count
  rw [hu, Words.toNat_succ (by omega)]

theorem toNat_objCount_lt (hp : IdInv p) (h : objAlloc product p = some (i, p₁)) (k : UInt32) :
    (objCount k objClassMask p₁).toNat < 255 := by
  obtain ⟨-, -, ho, -⟩ := objAlloc_cases h
  have hlt := length_ids_lt h
  have hlen := hp.length
  by_cases hk : k = 0
  · have := hp.count
    rw [objCount, if_pos hk, toNat_alloc_count hp h]
    omega
  · have hle := List.countP_le_length (p := fun nID : UInt32 => nID &&& objClassMask == k)
      (l := ids p₁)
    have hids : ids p₁ = ids p := by rw [ids, ids, ho]
    rw [toNat_objCount (by rw [ho]; exact hlen) hk]
    rw [hids] at hle ⊢
    omega

/-- The next objects of a class find `n` indices free. -/
def Ready (product : Product) (p : ObjectPool) (ulClass : UInt32) (n : Nat) : Prop :=
  ∀ i p₁, objAlloc product p = some (i, p₁) → Ahead p₁ ulClass n

theorem Ready.mono {ulClass : UInt32} {m n : Nat} (h : Ready product p ulClass n) (hle : m ≤ n) :
    Ready product p ulClass m := by
  intro i p₁ ha nID hm hcl
  have := h i p₁ ha nID hm hcl
  omega

/-- The objects that `FTE_CFG_OBJ_create` makes, the children behind their parent. -/
def family (pBase : ObjectConfig) (pChild : Nat → ObjectConfig) : List ObjectConfig :=
  pBase :: (List.range pBase.ulChild.toNat).map pChild

/-- An object that gets the next index of its class. -/
structure Next (p₁ : ObjectPool) (c : ObjectConfig) (t : UInt32) : Prop where
  ulClass : c.nID &&& objClassMask = t &&& objClassMask
  index : c.nID &&& 0xFF = objCount (t &&& objClassMask) objClassMask p₁ + 1

theorem Next.toNat_index {c : ObjectConfig} {t : UInt32} (hc : Next p₁ c t) (hp : IdInv p)
    (h : objAlloc product p = some (i, p₁)) : (c.nID &&& 0xFF).toNat =
      (objCount (t &&& objClassMask) objClassMask p₁).toNat + 1 := by
  have hlt := toNat_objCount_lt hp h (t &&& objClassMask)
  rw [hc.index, Words.toNat_succ (by omega)]

theorem Next.ne_zero {c : ObjectConfig} {t : UInt32} (hc : Next p₁ c t) (hp : IdInv p)
    (h : objAlloc product p = some (i, p₁)) : c.nID ≠ 0 := by
  intro hz
  have hi := hc.toNat_index hp h
  simp [hz] at hi

/-- An object that gets a free index of its class has an identifier of its own. -/
theorem IdInv.put (hp : IdInv p) (h : objAlloc product p = some (i, p₁)) {c : ObjectConfig}
    {t : UInt32} (hc : Next p₁ c t) {n : Nat} (hn : 0 < n) (hg : Ahead p₁ (t &&& objClassMask) n) :
    IdInv (p₁.put i c) := by
  obtain ⟨hi, hz, ho, -⟩ := objAlloc_cases h
  have hperm := ids_put h (hc.ne_zero hp h)
  have hids : ids p₁ = ids p := by rw [ids, ids, ho]
  refine ⟨?_, ?_, ?_⟩
  · rw [hperm.nodup_iff, List.nodup_cons]
    refine ⟨fun hm => ?_, hp.unique⟩
    have hahead := hg c.nID (hids ▸ hm) hc.ulClass
    rw [hc.toNat_index hp h] at hahead
    omega
  · rw [ObjectPool.put, List.length_set, ho]
    exact hp.length
  · rw [hperm.length_eq, List.length_cons]
    have hu := toNat_alloc_count hp h
    have := hp.count
    simp only [ObjectPool.put]
    omega

/-- An object takes at most one index of a class. -/
theorem Ready.put (hp : IdInv p) (h : objAlloc product p = some (i, p₁)) {c : ObjectConfig}
    {t : UInt32} (hc : Next p₁ c t) (hinv : IdInv (p₁.put i c)) {k : UInt32} {n : Nat}
    (hk : Ready product p k (n + if k = 0 ∨ t &&& objClassMask = k then 1 else 0)) :
    Ready product (p₁.put i c) k n := by
  intro j p₃ h₃
  obtain ⟨-, -, ho, -⟩ := objAlloc_cases h
  obtain ⟨-, -, ho₃, -⟩ := objAlloc_cases h₃
  have hids : ids p₁ = ids p := by rw [ids, ids, ho]
  have hids₃ : (ids p₃).Perm (c.nID :: ids p) := by
    rw [ids, ho₃]
    exact ids_put h (hc.ne_zero hp h)
  -- The number of the class grows with the object, that of the other classes stays.
  have hcount : (objCount k objClassMask p₃).toNat = (objCount k objClassMask p₁).toNat +
      if k = 0 ∨ t &&& objClassMask = k then 1 else 0 := by
    by_cases hk0 : k = 0
    · rw [objCount, if_pos hk0, objCount, if_pos hk0, toNat_alloc_count hinv h₃, if_pos (Or.inl hk0)]
      rfl
    · rw [toNat_objCount (by rw [ho₃]; exact hinv.length) hk0,
        toNat_objCount (by rw [ho]; exact hp.length) hk0, hids₃.countP_eq, List.countP_cons, hids]
      simp [hc.ulClass, hk0]
  intro nID hm hcl
  rcases List.mem_cons.mp (hids₃.mem_iff.mp hm) with rfl | hm
  · have hcl' : t &&& objClassMask = k := hc.ulClass.symm.trans hcl
    rw [if_pos (Or.inr hcl')] at hcount
    rw [hc.toNat_index hp h, hcl']
    exact Or.inl (Nat.le_of_eq hcount.symm)
  · have hahead := hk i p₁ h nID (hids ▸ hm) hcl
    omega

theorem next_newID (hp : IdInv p) (h : objAlloc product p = some (i, p₁)) {c : ObjectConfig}
    {t g : UInt32} (hg : g.toNat < 256)
    (hc : c.nID = newID t g (objCount (t &&& objClassMask) objClassMask p₁ + 1)) : Next p₁ c t := by
  have hlt := toNat_objCount_lt hp h (t &&& objClassMask)
  have hi : (objCount (t &&& objClassMask) objClassMask p₁ + 1).toNat < 256 := by
    rw [UInt32.toNat_add, UInt32.toNat_one]
    omega
  exact ⟨by rw [hc, class_newID hg hi], by rw [hc, index_newID hg hi]⟩

theorem taken_cons (k : UInt32) (c : ObjectConfig) (l : List ObjectConfig) :
    taken k (c :: l) = taken k l + if k = 0 ∨ c.nID &&& objClassMask = k then 1 else 0 := by
  simp [taken, List.countP_cons]

theorem taken_pos (c : ObjectConfig) (l : List ObjectConfig) :
    0 < taken (c.nID &&& objClassMask) (c :: l) := by
  rw [taken_cons, if_pos (Or.inr rfl)]
  exact Nat.succ_pos _

/-- A child takes one index of those that the others of the call do not. -/
theorem objCreateChild_inv (hp : IdInv p) (nID : UInt32) {g : UInt32} (hg : g.toNat < 256)
    {child : ObjectConfig} {n : Nat} (hn : 0 < n)
    (hr : Ready product p (child.nID &&& objClassMask) n) :
    IdInv (objCreateChild product nID g p child) ∧ ∀ k l, Ready product p k (taken k (child :: l)) →
      Ready product (objCreateChild product nID g p child) k (taken k l) := by
  unfold objCreateChild
  split
  · exact ⟨hp, fun k l hk => hk.mono (by rw [taken_cons]; exact Nat.le_add_right _ _)⟩
  · rename_i i p₁ h
    have hnext := next_newID hp h (t := child.nID) hg (c := { child with
      pName := indexedName child.pName (nID &&& 0xFFFF)
      xReserved := child.xReserved.set 0 nID
      nID := newID child.nID g (objCount (child.nID &&& objClassMask) objClassMask p₁ + 1) }) rfl
    have hinv := hp.put h hnext hn (hr i p₁ h)
    refine ⟨hinv, fun k l hk => ?_⟩
    rw [taken_cons] at hk
    exact hk.put hp h hnext hinv

theorem objCreateChildren_inv {nID g : UInt32} (hg : g.toNat < 256) {children : List ObjectConfig}
    (hp : IdInv p) (hr : ∀ c ∈ children, Ready product p (c.nID &&& objClassMask)
      (taken (c.nID &&& objClassMask) children)) :
    IdInv (children.foldl (objCreateChild product nID g) p) := by
  induction children generalizing p with
  | nil => exact hp
  | cons c children ih =>
    obtain ⟨hinv, hkeep⟩ := objCreateChild_inv hp nID hg (taken_pos c children)
      (hr c List.mem_cons_self)
    exact ih hinv fun d hd => hkeep _ children (hr d (List.mem_cons_of_mem _ hd))

end Alloc

section Ram

variable {product : Product} {r : Ram}

theorem objCreate_inv (hp : IdInv (r.page .object).body) {pBase : ObjectConfig}
    {pChild : Nat → ObjectConfig}
    (hr : ∀ c ∈ family pBase pChild, Ready product (r.page .object).body (c.nID &&& objClassMask)
      (taken (c.nID &&& objClassMask) (family pBase pChild))) :
    IdInv ((objCreate product pBase pChild r).2.page .object).body := by
  simp only [objCreate]
  split
  · exact hp
  · rename_i i p₁ h
    have hlt := toNat_objCount_lt hp h (pBase.nID &&& objClassMask)
    have hg : (if pBase.ulChild ≠ 0 then objCount (pBase.nID &&& objClassMask) objClassMask p₁ + 1
        else 0).toNat < 256 := by
      split
      · rw [UInt32.toNat_add, UInt32.toNat_one]
        omega
      · decide
    have hnext := next_newID hp h hg (t := pBase.nID) (c := { pBase with
      nID := newID pBase.nID (if pBase.ulChild ≠ 0 then
        objCount (pBase.nID &&& objClassMask) objClassMask p₁ + 1 else 0)
        (objCount (pBase.nID &&& objClassMask) objClassMask p₁ + 1)
      pName := indexedName pBase.pName
        (objCount (pBase.nID &&& objClassMask) objClassMask p₁ + 1) }) rfl
    have hinv := hp.put h hnext (taken_pos pBase _) (hr pBase List.mem_cons_self i p₁ h)
    simp only [Ram.modify, Function.update_self]
    refine objCreateChildren_inv hg hinv fun c hc => ?_
    have hready := hr c (List.mem_cons_of_mem _ hc)
    rw [family, taken_cons] at hready
    exact hready.put hp h hnext hinv

theorem objFree_inv (hp : IdInv (r.page .object).body) (oid : UInt32) :
    IdInv ((objFree oid r).2.page .object).body := by
  simp only [objFree]
  split
  · rename_i hu
    split
    · rename_i i hi
      obtain ⟨hi, -, -⟩ := List.findIdx?_eq_some_iff_getElem.mp hi
      have hperm := idsOf_set_zero hi
      have hcount := hp.count
      have hpos : 0 < (r.page .object).body.uiObjectCount.toNat := by
        rwa [Nat.pos_iff_ne_zero, ne_eq, ← UInt32.toNat_zero, UInt32.toNat_inj]
      simp only [Ram.change, Function.update_self]
      have hsub : ((r.page .object).body.uiObjectCount - 1).toNat =
          (r.page .object).body.uiObjectCount.toNat - 1 := Words.toNat_pred hpos
      have hn := hperm.nodup_iff.mp hp.unique
      have hl := hperm.length_eq
      refine ⟨?_, ?_, ?_⟩
      · simp only [ids]
        split at hn
        · exact hn
        · exact hn.of_cons
      · rw [List.length_set]
        exact hp.length
      · rw [hsub]
        simp only [ids] at hcount ⊢
        split at hl
        · omega
        · rw [List.length_cons] at hl
          omega
    · exact hp
  · exact hp

theorem ds18b20Create_inv (hp : IdInv (r.page .object).body) {pObjs : List UInt32}
    {nOID nBUSID : UInt32} {pROMCode : List UInt32} {created : Bool}
    (hfree : indexFree pObjs = true) (hr : Ready product (r.page .object).body objClassTemperature 1)
    {r' : Ram} (hs : ds18b20Create product pObjs nOID nBUSID pROMCode created r = some r') :
    IdInv (r'.page .object).body := by
  simp only [ds18b20Create, hfree, if_true] at hs
  split at hs
  · cases hs
  split at hs
  · cases hs
    exact hp
  · rename_i i p₁ h
    cases hs
    obtain ⟨-, -, ho, -⟩ := objAlloc_cases h
    have hlt := toNat_objCount_lt hp h objClassTemperature
    have hcount : objCount objClassTemperature objClassMask (r.page .object).body =
        objCount objClassTemperature objClassMask p₁ := by
      rw [objCount, objCount, ho]
      rfl
    have hid : (objTypeDS18B20 &&& objTypeMask) |||
        ((objCount objClassTemperature objClassMask (r.page .object).body + 1) &&& 0x0000FFFF) =
        newID objTypeDS18B20 0 (objCount objClassTemperature objClassMask p₁ + 1) := by
      rw [hcount, newID, and_low, UInt32.zero_shiftLeft, UInt32.or_zero]
      rw [UInt32.toNat_add, UInt32.toNat_one]
      omega
    have hclass : objTypeDS18B20 &&& objClassMask = objClassTemperature := by decide
    rw [← hclass] at hid hr
    have hinv := fun (c : ObjectConfig) (hc : c.nID = newID objTypeDS18B20 0
        (objCount (objTypeDS18B20 &&& objClassMask) objClassMask p₁ + 1)) =>
      hp.put h (next_newID hp h (by decide) hc) Nat.one_pos (hr i p₁ h)
    split
    · simp only [Ram.change, Function.update_self]
      exact hinv _ hid
    · refine objFree_inv ?_ _
      simp only [Ram.change, Function.update_self]
      exact hinv _ hid

end Ram

/-- A call that changes the object pool. -/
inductive IdAction where
  | objCreate (pBase : ObjectConfig) (pChild : Nat → ObjectConfig)
  | objFree (oid : UInt32)
  | ds18b20Create (pObjs : List UInt32) (nOID nBUSID : UInt32) (pROMCode : List UInt32)
      (created : Bool)

section Runs

variable (product : Product)

def idStep (r : Ram) : IdAction → Option Ram
  | .objCreate pBase pChild => some (objCreate product pBase pChild r).2
  | .objFree oid => some (objFree oid r).2
  | .ds18b20Create pObjs nOID nBUSID pROMCode created =>
    ds18b20Create product pObjs nOID nBUSID pROMCode created r

/-- A creation finds free as many indices of each class, behind its number of objects, as it takes. -/
def IdAllowed (r : Ram) : IdAction → Prop
  | .objCreate pBase pChild => ∀ c ∈ family pBase pChild,
    Ready product (r.page .object).body (c.nID &&& objClassMask)
      (taken (c.nID &&& objClassMask) (family pBase pChild))
  | .objFree _ => True
  | .ds18b20Create pObjs _ _ _ _ =>
    indexFree pObjs = true ∧ Ready product (r.page .object).body objClassTemperature 1

variable {product}

theorem idInv_step {r r' : Ram} (h : IdInv (r.page .object).body) {a : IdAction}
    (ha : IdAllowed product r a) (hs : idStep product r a = some r') :
    IdInv (r'.page .object).body := by
  cases a with
  | objCreate pBase pChild =>
    cases hs
    exact objCreate_inv h ha
  | objFree oid =>
    cases hs
    exact objFree_inv h oid
  | ds18b20Create pObjs nOID nBUSID pROMCode created => exact ds18b20Create_inv h ha.1 ha.2 hs

theorem idsOf_zero (n : Nat) : idsOf (List.replicate n zeroObject) = [] := by
  simp [idsOf, zeroObject]

theorem idInv_zero (hmax : product.objMaxCount < 255) {p : ObjectPool}
    (hp : p = zeroBody product .object) : IdInv p := by
  subst hp
  have hids : ids (zeroBody product .object) = [] := idsOf_zero _
  refine ⟨?_, ?_, ?_⟩
  · rw [hids]
    exact List.nodup_nil
  · simpa [zeroBody] using hmax
  · simp [zeroBody]

/-- No two slots get the same identifier while every creation finds the indices free that it takes. -/
theorem unique_of_allowed (hmax : product.objMaxCount < 255) {r : Ram}
    (hr : (r.page .object).body = zeroBody product .object) {acts : List IdAction}
    (h : ∀ u a, Takes (idStep product) r acts u a → IdAllowed product u a) :
    ∀ u, Visits (idStep product) r acts u → (ids (u.page .object).body).Nodup := by
  intro u hu
  have hinv := @inv_of_takes _ _ (idStep product) (fun r => IdInv (r.page .object).body)
    (IdAllowed product) r u acts (idInv_zero hmax hr) (fun _ _ _ h ha hs => idInv_step h ha hs) h hu
  exact hinv.unique

instance (p : ObjectPool) (k : UInt32) (n : Nat) : Decidable (Ahead p k n) :=
  List.decidableBAll (fun nID => nID &&& objClassMask = k →
    (nID &&& 0xFF).toNat ≤ (objCount k objClassMask p).toNat ∨
      (objCount k objClassMask p).toNat + n < (nID &&& 0xFF).toNat) (ids p)

instance (p : ObjectPool) (k : UInt32) (n : Nat) : Decidable (Ready product p k n) :=
  decidable_of_iff (∀ x ∈ objAlloc product p, Ahead x.2 k n)
    ⟨fun h i p₁ ha => h (i, p₁) ha, fun h x hx => h x.1 x.2 hx⟩

instance (r : Ram) : DecidablePred (IdAllowed product r) := fun a => by
  cases a <;> (unfold IdAllowed; infer_instance)

/-- A product with the slots that fit a page. -/
def roomyProduct : Product := { bareProduct with objMaxCount := 33 }

def blankRam : Ram := ⟨zeroPage roomyProduct, fun _ => false⟩

def newDS18B20 (pObjs : List UInt32) : IdAction := .ds18b20Create pObjs 0 0 [0, 0] true

/-- Two objects, of which one is freed, and a third. The driver's list keeps those that it has. -/
def renewed (oid : UInt32) : List IdAction :=
  [newDS18B20 [], newDS18B20 [0x01020001], .objFree oid, newDS18B20 [0x01020001, 0x01020002]]

/-- The first of two objects is freed, and the next one gets the identifier of the second. -/
theorem freed_index_reused : (blankRam.page .object).body = zeroBody roomyProduct .object ∧
    ∃ u, exec (idStep roomyProduct) (renewed 0x01020001) blankRam = some u ∧
      ¬ (ids (u.page .object).body).Nodup :=
  ⟨rfl, _, rfl, by decide⟩

theorem last_index_reused : ∃ u, exec (idStep roomyProduct) (renewed 0x01020002) blankRam = some u ∧
      ids (u.page .object).body = [0x01020001, 0x01020002] ∧ (ids (u.page .object).body).Nodup := by
  obtain ⟨u, hu, hids⟩ : ∃ u, exec (idStep roomyProduct) (renewed 0x01020002) blankRam = some u ∧
      ids (u.page .object).body = [0x01020001, 0x01020002] := ⟨_, rfl, by decide⟩
  exact ⟨u, hu, hids, @unique_of_allowed roomyProduct (by decide) blankRam rfl _
    (takes_of_along (by decide)) u ⟨_, List.prefix_rfl, hu⟩⟩

end Runs

end EdgeNode.Config
