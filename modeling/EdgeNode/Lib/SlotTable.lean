import Mathlib.Data.Finset.Card
import Mathlib.Data.Fintype.Basic
import Mathlib.Data.List.FinRange
import Mathlib.Tactic.Common

/-! Tables of a fixed number of slots, each vacant or with one thing in it. -/

namespace SlotTable

variable {n : Nat} {α : Type} (f : Fin n → Option α)

section Search

/-- The first slot with the thing in it. -/
def slotOf [DecidableEq α] (x : α) : Option (Fin n) := (List.finRange n).find? fun i => f i = some x

def vacancy : Option (Fin n) := (List.finRange n).find? fun i => (f i).isNone

variable {f} {i : Fin n} {x : α}

theorem slotOf_eq [DecidableEq α] (h : slotOf f x = some i) : f i = some x := by
  simpa using List.find?_some h

theorem slotOf_eq_none [DecidableEq α] : slotOf f x = none ↔ ∀ i, f i ≠ some x := by
  simp [slotOf, List.find?_eq_none]

theorem vacancy_eq (h : vacancy f = some i) : f i = none := by
  simpa using List.find?_some h

end Search

section Updates

variable {κ : Type} [DecidableEq κ] {g : κ → Option α} {k l : κ} {x y : α}

/-- What stands where, when something was put where nothing was. -/
theorem put_eq (hk : g k = none) :
    Function.update g k (some x) l = some y ↔ (l = k ∧ y = x) ∨ g l = some y := by
  by_cases hl : l = k
  · subst hl
    simp [hk, eq_comm]
  · simp [hl]

theorem clear_eq : Function.update g k none l = some y ↔ l ≠ k ∧ g l = some y := by
  by_cases hl : l = k <;> simp [hl]

end Updates

section Count

def occupied : Finset (Fin n) := Finset.univ.filter fun i => (f i).isSome

variable {f} {i : Fin n} {x : α}

theorem mem_occupied : i ∈ occupied f ↔ (f i).isSome := by simp [occupied]

theorem card_put (h : f i = none) :
    (occupied (Function.update f i (some x))).card = (occupied f).card + 1 := by
  have hi : i ∉ occupied f := by simp [mem_occupied, h]
  rw [← Finset.card_insert_of_notMem hi]
  congr 1
  ext j
  rw [mem_occupied, Finset.mem_insert, mem_occupied, Function.update_apply]
  split <;> simp [*]

theorem card_clear (h : f i = some x) :
    (occupied (Function.update f i none)).card + 1 = (occupied f).card := by
  have hi : Function.update f i none i = none := Function.update_self ..
  rw [← card_put (x := x) hi, Function.update_idem, ← h, Function.update_eq_self]

end Count

section Members

/-- Each member stands in exactly one slot, and the slots hold nothing but members. -/
structure Holds (members : α → Prop) : Prop where
  slot : ∀ x, members x → ∃ i, f i = some x
  once : ∀ i j x, f i = some x → f j = some x → i = j
  only : ∀ i x, f i = some x → members x

variable {f} {members : α → Prop} {i : Fin n} {x : α}

theorem Holds.congr {members' : α → Prop} (h : Holds f members) (hm : ∀ x, members' x ↔ members x) :
    Holds f members' :=
  ⟨fun x hx => h.slot x ((hm x).mp hx), h.once, fun i x hi => (hm x).mpr (h.only i x hi)⟩

theorem Holds.slotOf [DecidableEq α] (h : Holds f members) (hi : f i = some x) :
    slotOf f x = some i := by
  cases hs : SlotTable.slotOf f x with
  | none => exact absurd hi (slotOf_eq_none.mp hs i)
  | some j => rw [h.once i j x hi (slotOf_eq hs)]

theorem Holds.put (h : Holds f members) (hi : f i = none) (hx : ¬ members x) :
    Holds (Function.update f i (some x)) fun y => y = x ∨ members y := by
  constructor
  · rintro y (rfl | hy)
    · exact ⟨i, Function.update_self ..⟩
    · obtain ⟨j, hj⟩ := h.slot y hy
      exact ⟨j, (put_eq hi).mpr (.inr hj)⟩
  · intro j k y hj hk
    rw [put_eq hi] at hj hk
    obtain ⟨rfl, rfl⟩ | hj := hj
    · obtain ⟨rfl, -⟩ | hk := hk
      · rfl
      · exact absurd (h.only k y hk) hx
    · obtain ⟨rfl, rfl⟩ | hk := hk
      · exact absurd (h.only j y hj) hx
      · exact h.once j k y hj hk
  · intro j y hj
    exact ((put_eq hi).mp hj).imp (·.2) (h.only j y)

/-- A member that is put once more stands in two slots. -/
theorem Holds.not_put {members' : α → Prop} (h : Holds f members) (hi : f i = none) (hx : members x) :
    ¬ Holds (Function.update f i (some x)) members' := by
  intro h'
  obtain ⟨j, hj⟩ := h.slot x hx
  have hji : j = i := h'.once j i x ((put_eq hi).mpr (.inr hj)) (Function.update_self ..)
  rw [hji, hi] at hj
  cases hj

theorem Holds.clear (h : Holds f members) (hi : f i = some x) :
    Holds (Function.update f i none) fun y => y ≠ x ∧ members y := by
  constructor
  · rintro y ⟨hyx, hy⟩
    obtain ⟨j, hj⟩ := h.slot y hy
    refine ⟨j, clear_eq.mpr ⟨?_, hj⟩⟩
    rintro rfl
    rw [hi] at hj
    exact hyx (Option.some.inj hj).symm
  · intro j k y hj hk
    exact h.once j k y (clear_eq.mp hj).2 (clear_eq.mp hk).2
  · intro j y hj
    obtain ⟨hji, hj⟩ := clear_eq.mp hj
    refine ⟨?_, h.only j y hj⟩
    rintro rfl
    exact hji (h.once j i y hj hi)

end Members

end SlotTable
