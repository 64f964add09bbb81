import Mathlib.Data.List.Basic
import Mathlib.Tactic.Common

/-! A value that several overwrite for a while, each of them to put back what it found. -/

namespace SaveRestore

variable {ι α : Type} {own saved own' saved' : ι → α} {base u : α} {i : ι} {is : List ι}

/-- Those that have overwritten the value `base` and not put it back yet, the last of them first:
each found what the one before it wrote, and the last wrote `u`. -/
def Chain (own saved : ι → α) (base : α) : List ι → α → Prop
  | [], u => u = base
  | i :: is, u => own i = u ∧ Chain own saved base is (saved i)

theorem Chain.congr (h : Chain own saved base is u) (ho : ∀ j ∈ is, own' j = own j)
    (hs : ∀ j ∈ is, saved' j = saved j) : Chain own' saved' base is u := by
  induction is generalizing u with
  | nil => exact h
  | cons i is ih =>
    refine ⟨(ho i List.mem_cons_self).trans h.1, ?_⟩
    rw [hs i List.mem_cons_self]
    exact ih h.2 (fun j hj => ho j (List.mem_cons_of_mem i hj))
      (fun j hj => hs j (List.mem_cons_of_mem i hj))

variable [DecidableEq ι]

/-- Those that came after `i` wrote what `i` did. -/
def LaterSame (own : ι → α) (is : List ι) (i : ι) : Prop :=
  ∀ j ∈ is.takeWhile (· ≠ i), own j = own i

instance [DecidableEq α] (own : ι → α) (is : List ι) (i : ι) : Decidable (LaterSame own is i) :=
  inferInstanceAs (Decidable (∀ j ∈ is.takeWhile (· ≠ i), own j = own i))

theorem Chain.eq_own (h : Chain own saved base is u) (hi : i ∈ is) (hl : LaterSame own is i) :
    u = own i := by
  cases is with
  | nil => cases hi
  | cons j js =>
    by_cases hj : j = i
    · rw [← h.1, hj]
    · rw [← h.1]
      exact hl j (by simp [hj])

/-- One of them that found what it wrote can go in any order. -/
theorem Chain.erase (h : Chain own saved base is u) (heq : saved i = own i) :
    Chain own saved base (is.erase i) u := by
  induction is generalizing u with
  | nil => exact h
  | cons j js ih =>
    by_cases hj : j = i
    · subst hj
      rw [List.erase_cons_head, ← h.1, ← heq]
      exact h.2
    · rw [List.erase_cons_tail (by simpa using hj)]
      exact ⟨h.1, ih h.2⟩

end SaveRestore
