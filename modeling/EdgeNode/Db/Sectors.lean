import EdgeNode.Lib.Runs
import Mathlib.Logic.Function.Basic

/-! The object tables of the database over its flash sectors, and which sector an object owns. -/

namespace EdgeNode.Db

def sectorMax : Nat := 31

def typeUnused : UInt32 := 0xFFFFFFFF
def typeObject : UInt32 := 0x5AA5F00F
def typeDestroyed : UInt32 := 0x00000000
def typeCrashed : UInt32 := 0xF0F0F0F0

/-- The type of a sector and the object in it, as the head of the sector holds them. -/
structure SectorHead where
  xType : UInt32
  xID : UInt32
  deriving DecidableEq

structure Object where
  xID : UInt32
  ulCount : UInt32
  ulSectorIndex : Nat
  deriving DecidableEq

structure Tables where
  pSectors : Nat → SectorHead
  ulObjectCount : Nat
  pObjects : Nat → Object

def zeroTables : Tables := ⟨fun _ => ⟨0, 0⟩, 0, fun _ => ⟨0, 0, 0⟩⟩

/-- `pFlash` with what it points to, the heads of the sectors on the device, and as a ghost the
objects that were created and not destroyed since the database was last set up anew. -/
structure Database where
  pFlash : Option Tables
  flash : Nat → SectorHead
  live : List UInt32

/-- An initialisation of the database: anew, by force or without a readable head, or from flash,
where a sector may be unreadable; or one that fails, maybe after its allocation. A destruction
leaves what it finds on the stack in the head it writes. -/
inductive Action where
  | init (anew : Bool) (readable : Nat → Bool)
  | initFails (noMemory : Bool)
  | create (xID : UInt32)
  | destroy (xID : UInt32) (garbage : UInt32)

def loadSector (flash : Nat → SectorHead) (readable : Nat → Bool) (t : Tables) (i : Nat) : Tables :=
  if readable i then
    if (flash i).xType = typeObject then
      { t with
        pSectors := Function.update t.pSectors i (flash i)
        ulObjectCount := t.ulObjectCount + 1 }
    else t
  else { t with pSectors := Function.update t.pSectors i ⟨typeCrashed, (t.pSectors i).xID⟩ }

def load (flash : Nat → SectorHead) (readable : Nat → Bool) : Tables :=
  (List.range sectorMax).foldl (loadSector flash readable) zeroTables

/-- The loop with which `FTE_DB_OBJ_create`, `_destroy` and `_count` look for an object. -/
def findObject (t : Tables) (xID : UInt32) : Option Nat :=
  (List.range t.ulObjectCount).find? fun i => (t.pObjects i).xID = xID

def findSector (t : Tables) (xType : UInt32) : Option Nat :=
  (List.range sectorMax).find? fun i => (t.pSectors i).xType = xType

def freeSector (t : Tables) : Option (Nat × UInt32) :=
  match findSector t typeUnused with
  | some i => some (i, typeUnused)
  | none => (findSector t typeDestroyed).map fun i => (i, typeDestroyed)

def freeSlot (t : Tables) : Option Nat :=
  (List.range sectorMax).find? fun i => (t.pObjects i).xID = 0

/-- The sector that `FTE_DB_OBJ_create` takes, of which type it is, and the slot. -/
def place (t : Tables) (xID : UInt32) : Option ((Nat × UInt32) × Nat) :=
  if (findObject t xID).isSome then none
  else (freeSector t).bind fun c => (freeSlot t).map fun n => (c, n)

def erased : SectorHead := ⟨0xFFFFFFFF, 0xFFFFFFFF⟩

/-- A write clears bits and sets none. -/
def program (old new : SectorHead) : SectorHead := ⟨old.xType &&& new.xType, old.xID &&& new.xID⟩

def putObject (xID : UInt32) (c : Nat × UInt32) (n : Nat) (t : Tables) (s : Database) : Database :=
  let old := if c.2 = typeDestroyed then erased else s.flash c.1
  { flash := Function.update s.flash c.1 (program old ⟨typeObject, xID⟩)
    pFlash := some { t with
      pObjects := Function.update t.pObjects n ⟨xID, 0, c.1⟩
      ulObjectCount := t.ulObjectCount + 1 }
    live := xID :: s.live }

/-- The records behind the destroyed one move up. -/
def closeGap (i count : Nat) (pObjects : Nat → Object) : Nat → Object := fun k =>
  if i ≤ k ∧ k + 1 < count then pObjects (k + 1) else pObjects k

def dropObject (xID garbage : UInt32) (i : Nat) (t : Tables) (s : Database) : Database :=
  let c := (t.pObjects i).ulSectorIndex
  { flash := Function.update s.flash c (program (s.flash c) ⟨typeDestroyed, garbage⟩)
    pFlash := some { t with
      pObjects := closeGap i t.ulObjectCount t.pObjects
      ulObjectCount := t.ulObjectCount - 1 }
    live := s.live.filter fun y => y ≠ xID }

/-- What the calls do; before the first initialisation an object call follows a null pointer. -/
def step (s : Database) : Action → Option Database
  | .init anew readable =>
    if anew then some { s with pFlash := some zeroTables, live := [] }
    else some { s with pFlash := some (load s.flash readable) }
  | .initFails noMemory => if noMemory then some { s with pFlash := none } else some s
  | .create xID => match s.pFlash with
    | none => none
    | some t => match place t xID with
      | none => some s
      | some (c, n) => some (putObject xID c n t s)
  | .destroy xID garbage => match s.pFlash with
    | none => none
    | some t => match findObject t xID with
      | none => some s
      | some i => some (dropObject xID garbage i t s)

/-- The record that `FTE_DB_OBJ_count` and `FTE_DB_OBJ_destroy` find for an object. -/
def record (s : Database) (xID : UInt32) : Option Object :=
  s.pFlash.bind fun t => (findObject t xID).map t.pObjects

/-- Every object that was created and not destroyed is found, in a sector of its own that says so. -/
structure Owned (s : Database) : Prop where
  found : ∀ x ∈ s.live, ∃ o, record s x = some o ∧ s.flash o.ulSectorIndex = ⟨typeObject, x⟩
  distinct : ∀ x ∈ s.live, ∀ y ∈ s.live, ∀ o p, record s x = some o → record s y = some p →
    o.ulSectorIndex = p.ulSectorIndex → x = y

/-- A creation takes a slot that is looked at from then on, and neither slot nor sector of another
object; an object that is destroyed without having been created has no sector of another's; and no
object exists when the tables are set up from flash or lost. -/
def Allowed (s : Database) : Action → Prop
  | .init anew _ => anew = true ∨ s.live = []
  | .initFails noMemory => noMemory = false ∨ s.live = []
  | .create xID => ∀ t ∈ s.pFlash, ∀ p ∈ place t xID, p.2 ≤ t.ulObjectCount ∧
      ∀ y ∈ s.live, ∀ j ∈ findObject t y, j ≠ p.2 ∧ (t.pObjects j).ulSectorIndex ≠ p.1.1
  | .destroy xID _ => xID ∈ s.live ∨ ∀ t ∈ s.pFlash, ∀ i ∈ findObject t xID,
      ∀ y ∈ s.live, ∀ j ∈ findObject t y,
        (t.pObjects j).ulSectorIndex ≠ (t.pObjects i).ulSectorIndex

instance (s : Database) : DecidablePred (Allowed s)
  | .init anew _ => inferInstanceAs (Decidable (anew = true ∨ s.live = []))
  | .initFails noMemory => inferInstanceAs (Decidable (noMemory = false ∨ s.live = []))
  | .create xID =>
    have (t : Tables) (p : (Nat × UInt32) × Nat) : Decidable (∀ y ∈ s.live,
        ∀ j ∈ findObject t y, j ≠ p.2 ∧ (t.pObjects j).ulSectorIndex ≠ p.1.1) :=
      List.decidableBAll _ _
    inferInstanceAs (Decidable (∀ t ∈ s.pFlash, ∀ p ∈ place t xID, _))
  | .destroy xID _ =>
    have (t : Tables) (i : Nat) : Decidable (∀ y ∈ s.live, ∀ j ∈ findObject t y,
        (t.pObjects j).ulSectorIndex ≠ (t.pObjects i).ulSectorIndex) :=
      List.decidableBAll _ _
    inferInstanceAs (Decidable (xID ∈ s.live ∨ ∀ t ∈ s.pFlash, ∀ i ∈ findObject t xID, _))

structure Start (s : Database) : Prop where
  pFlash : s.pFlash = none
  live : s.live = []

/-- No sector is taken for unused, so each is erased before it is written. -/
def Used (t : Tables) : Prop := ∀ i, (t.pSectors i).xType ≠ typeUnused

structure Inv (s : Database) : Prop where
  used : ∀ t ∈ s.pFlash, Used t
  found : ∀ x ∈ s.live, ∃ o, record s x = some o ∧ s.flash o.ulSectorIndex = ⟨typeObject, x⟩

theorem findObject_eq_some {t : Tables} {x : UInt32} {i : Nat} : findObject t x = some i ↔
    i < t.ulObjectCount ∧ (t.pObjects i).xID = x ∧ ∀ j < i, (t.pObjects j).xID ≠ x := by
  rw [findObject, List.find?_range_eq_some]
  simp only [decide_eq_true_eq, List.mem_range, Bool.not_eq_true', decide_eq_false_iff_not]
  tauto

theorem findObject_eq_none {t : Tables} {x : UInt32} :
    findObject t x = none ↔ ∀ j < t.ulObjectCount, (t.pObjects j).xID ≠ x := by
  simp [findObject]

theorem Inv.owned {s : Database} (h : Inv s) : Owned s := by
  refine ⟨h.found, fun x hx y hy o p ho hp hs => ?_⟩
  obtain ⟨o', ho', hfo⟩ := h.found x hx
  obtain ⟨p', hp', hfp⟩ := h.found y hy
  obtain rfl : o' = o := Option.some.inj (ho'.symm.trans ho)
  obtain rfl : p' = p := Option.some.inj (hp'.symm.trans hp)
  rw [hs, hfp] at hfo
  exact (congrArg SectorHead.xID hfo).symm

theorem used_zeroTables : Used zeroTables := fun _ => show (0 : UInt32) ≠ typeUnused by decide

theorem program_erased (head : SectorHead) : program erased head = head := by
  have hmask : (0xFFFFFFFF : UInt32) = -1 := by decide
  simp [program, erased, hmask]

theorem Used.update {t : Tables} (h : Used t) {k : Nat} {head : SectorHead}
    (hk : head.xType ≠ typeUnused) (i : Nat) :
    (Function.update t.pSectors k head i).xType ≠ typeUnused := by
  by_cases hi : i = k
  · subst hi
    rw [Function.update_self]
    exact hk
  · rw [Function.update_of_ne hi]
    exact h i

theorem Used.loadSector {t : Tables} (h : Used t) (flash : Nat → SectorHead)
    (readable : Nat → Bool) (i : Nat) : Used (loadSector flash readable t i) := by
  rw [Db.loadSector]
  split
  · split
    next ho => exact h.update (by rw [ho]; decide)
    next => exact h
  · exact h.update (show typeCrashed ≠ typeUnused by decide)

theorem used_load (flash : Nat → SectorHead) (readable : Nat → Bool) :
    Used (load flash readable) := by
  rw [load]
  generalize List.range sectorMax = l
  have hz := used_zeroTables
  revert hz
  generalize zeroTables = t
  induction l generalizing t with
  | nil => exact id
  | cons k l ih => exact fun ht => ih _ (ht.loadSector flash readable k)

/-- A sector that a creation takes is erased first, so it then holds the head written. -/
theorem Used.place {t : Tables} (h : Used t) {x : UInt32} {c : Nat × UInt32} {n : Nat}
    (hp : place t x = some (c, n)) : findObject t x = none ∧ c.2 = typeDestroyed := by
  rw [Db.place] at hp
  by_cases hx : (findObject t x).isSome
  · rw [if_pos hx] at hp
    cases hp
  · rw [if_neg hx] at hp
    refine ⟨by simpa using hx, ?_⟩
    obtain ⟨c', hc, hp⟩ := Option.bind_eq_some_iff.mp hp
    obtain ⟨n', -, hn⟩ := Option.map_eq_some_iff.mp hp
    cases hn
    have hno : findSector t typeUnused = none := by
      rw [findSector, List.find?_range_eq_none]
      intro i _
      simpa using h i
    rw [freeSector, hno] at hc
    obtain ⟨i, -, hi⟩ := Option.map_eq_some_iff.mp hc
    cases hi
    rfl

theorem record_eq {s : Database} {t : Tables} (ht : s.pFlash = some t) (x : UInt32) :
    record s x = (findObject t x).map t.pObjects := by
  rw [record, ht, Option.bind_some]

/-- The records of a new object and of those it does not disturb. -/
theorem Inv.putObject {s : Database} {t : Tables} (h : Inv s) (ht : s.pFlash = some t) {x : UInt32}
    {c : Nat × UInt32} {n : Nat} (hp : place t x = some (c, n)) (hn : n ≤ t.ulObjectCount)
    (hfree : ∀ y ∈ s.live, ∀ j ∈ findObject t y, j ≠ n ∧ (t.pObjects j).ulSectorIndex ≠ c.1) :
    Inv (putObject x c n t s) := by
  obtain ⟨hx, hc⟩ := (h.used t ht).place hp
  have hnone := findObject_eq_none.mp hx
  refine ⟨fun t' ht' => ?_, fun y hy => ?_⟩
  · cases ht'
    exact h.used t ht
  have hrec := record_eq (s := Db.putObject x c n t s) rfl y
  obtain rfl | hy := List.mem_cons.mp hy
  · refine ⟨⟨y, 0, c.1⟩, ?_, ?_⟩
    · have hf : findObject { t with
          pObjects := Function.update t.pObjects n ⟨y, 0, c.1⟩
          ulObjectCount := t.ulObjectCount + 1 } y = some n := by
        refine findObject_eq_some.mpr ⟨Nat.lt_succ_of_le hn, ?_, fun j hj => ?_⟩
        · simp
        · simpa [Nat.ne_of_lt hj] using hnone j (Nat.lt_of_lt_of_le hj hn)
      rw [hrec, hf]
      simp
    · simp [Db.putObject, hc, program_erased]
  · obtain ⟨o, ho, hflash⟩ := h.found y hy
    rw [record_eq ht] at ho
    obtain ⟨j, hj, rfl⟩ := Option.map_eq_some_iff.mp ho
    obtain ⟨hjn, hjc⟩ := hfree y hy j hj
    obtain ⟨hlt, hid, hfirst⟩ := findObject_eq_some.mp hj
    have hyx : y ≠ x := fun he => hnone j hlt (hid.trans he)
    refine ⟨t.pObjects j, ?_, ?_⟩
    · have hf : findObject { t with
          pObjects := Function.update t.pObjects n ⟨x, 0, c.1⟩
          ulObjectCount := t.ulObjectCount + 1 } y = some j := by
        refine findObject_eq_some.mpr ⟨Nat.lt_succ_of_lt hlt, ?_, fun k hk => ?_⟩
        · simpa [hjn] using hid
        · by_cases hkn : k = n
          · simpa [hkn] using hyx.symm
          · simpa [hkn] using hfirst k hk
      rw [hrec, hf]
      simp [hjn]
    · simpa [Db.putObject, hjc] using hflash

/-- Where an object is found once the record of another one is gone. -/
theorem findObject_closeGap {t : Tables} {x y : UInt32} {i j : Nat} (hi : findObject t x = some i)
    (hj : findObject t y = some j) (hne : y ≠ x) :
    findObject { t with
      pObjects := closeGap i t.ulObjectCount t.pObjects
      ulObjectCount := t.ulObjectCount - 1 } y = some (if j < i then j else j - 1) := by
  obtain ⟨hilt, hid, hifirst⟩ := findObject_eq_some.mp hi
  obtain ⟨hjlt, hjd, hjfirst⟩ := findObject_eq_some.mp hj
  have hij : j ≠ i := fun he => hne (hjd.symm.trans (he ▸ hid))
  rw [findObject_eq_some]
  by_cases hlt : j < i
  · rw [if_pos hlt]
    refine ⟨by dsimp only; omega, ?_, fun k hk => ?_⟩
    · simpa [closeGap, Nat.not_le_of_lt hlt] using hjd
    · have hik : ¬ i ≤ k := by omega
      simpa [closeGap, hik] using hjfirst k hk
  · rw [if_neg hlt]
    have hj1 : j - 1 + 1 = j := by omega
    refine ⟨by dsimp only; omega, ?_, fun k hk => ?_⟩
    · have hcond : i ≤ j - 1 ∧ j < t.ulObjectCount := by omega
      simpa [closeGap, hj1, hcond] using hjd
    · by_cases hik : i ≤ k
      · have hcond : i ≤ k ∧ k + 1 < t.ulObjectCount := by omega
        simpa [closeGap, hcond] using hjfirst (k + 1) (by omega)
      · simpa [closeGap, hik] using hjfirst k (by omega)

theorem closeGap_at {t : Tables} {i j : Nat} (hj : j < t.ulObjectCount) (hij : j ≠ i) :
    closeGap i t.ulObjectCount t.pObjects (if j < i then j else j - 1) = t.pObjects j := by
  by_cases hlt : j < i
  · rw [if_pos hlt, closeGap, if_neg (by omega)]
  · have hj1 : j - 1 + 1 = j := by omega
    rw [if_neg hlt, closeGap, if_pos (by omega), hj1]

theorem Inv.dropObject {s : Database} {t : Tables} (h : Inv s) (ht : s.pFlash = some t)
    {x : UInt32} (garbage : UInt32) {i : Nat} (hi : findObject t x = some i)
    (hfree : x ∈ s.live ∨ ∀ y ∈ s.live, ∀ j ∈ findObject t y,
      (t.pObjects j).ulSectorIndex ≠ (t.pObjects i).ulSectorIndex) :
    Inv (dropObject x garbage i t s) := by
  refine ⟨fun t' ht' => ?_, fun y hy => ?_⟩
  · cases ht'
    exact h.used t ht
  obtain ⟨hy, hyx⟩ := List.mem_filter.mp hy
  have hne : y ≠ x := of_decide_eq_true hyx
  obtain ⟨o, ho, hflash⟩ := h.found y hy
  have hrecord := ho
  rw [record_eq ht] at ho
  obtain ⟨j, hj, rfl⟩ := Option.map_eq_some_iff.mp ho
  have hsector : (t.pObjects j).ulSectorIndex ≠ (t.pObjects i).ulSectorIndex := by
    obtain hx | hfree := hfree
    · intro he
      refine hne (h.owned.distinct y hy x hx _ (t.pObjects i) hrecord ?_ he)
      rw [record_eq ht, hi]
      rfl
    · exact hfree y hy j hj
  have hij : j ≠ i := fun he => hsector (he ▸ rfl)
  refine ⟨t.pObjects j, ?_, ?_⟩
  · rw [record_eq (s := Db.dropObject x garbage i t s) rfl, findObject_closeGap hi hj hne]
    exact congrArg some (closeGap_at (findObject_eq_some.mp hj).1 hij)
  · simpa [Db.dropObject, hsector] using hflash

theorem Inv.empty {s : Database} (hlive : s.live = []) (hused : ∀ t ∈ s.pFlash, Used t) : Inv s :=
  ⟨hused, by simp [hlive]⟩

theorem Inv.step {s u : Database} {a : Action} (h : Inv s) (ha : Allowed s a)
    (hst : step s a = some u) : Inv u := by
  cases a with
  | init anew readable =>
    cases anew with
    | true =>
      cases hst
      refine Inv.empty rfl fun t ht => ?_
      cases ht
      exact used_zeroTables
    | false =>
      cases hst
      refine Inv.empty (ha.resolve_left (by decide)) fun t ht => ?_
      cases ht
      exact used_load _ _
  | initFails noMemory =>
    cases noMemory with
    | true =>
      cases hst
      exact Inv.empty (ha.resolve_left (by decide)) (by simp)
    | false =>
      cases hst
      exact h
  | create xID =>
    rw [Db.step] at hst
    cases ht : s.pFlash with
    | none => simp [ht] at hst
    | some t =>
      cases hp : place t xID with
      | none =>
        simp only [ht, hp, Option.some.injEq] at hst
        exact hst ▸ h
      | some p =>
        obtain ⟨c, n⟩ := p
        simp only [ht, hp, Option.some.injEq] at hst
        obtain ⟨hn, hfree⟩ := ha t ht (c, n) hp
        exact hst ▸ h.putObject ht hp hn hfree
  | destroy xID garbage =>
    rw [Db.step] at hst
    cases ht : s.pFlash with
    | none => simp [ht] at hst
    | some t =>
      cases hi : findObject t xID with
      | none =>
        simp only [ht, hi, Option.some.injEq] at hst
        exact hst ▸ h
      | some i =>
        simp only [ht, hi, Option.some.injEq] at hst
        exact hst ▸ h.dropObject ht garbage hi (ha.imp_right fun hf => hf t ht i hi)

theorem Start.inv {s : Database} (h : Start s) : Inv s :=
  Inv.empty h.live (by simp [h.pFlash])

section Runs

/-- A device that was never written. -/
def blank : Database := ⟨none, fun _ => erased, []⟩

theorem start_blank : Start blank := ⟨rfl, rfl⟩

end Runs

end EdgeNode.Db
