import Mathlib.Data.List.Basic
import Mathlib.Logic.Function.Basic
import Mathlib.Tactic.Common

/-! Items laid into a page one behind the other, from its end on again at its start. -/

namespace WrappedPage

variable {α : Type} (n : Nat)

/-- The page with the items laid from place `i` on; of two in one place the later stays. -/
def lay : List α → Nat → (Nat → α) → Nat → α
  | [], _, page => page
  | a :: as, i, page => lay as ((i + 1) % n) (Function.update page i a)

variable {n}

/-- A place keeps what it held if no item comes to it, else it holds the last of those that do. -/
theorem lay_cases (as : List α) {i : Nat} (hi : i < n) (page : Nat → α) (p : Nat) :
    (lay n as i page p = page p ∧ ∀ k < as.length, (i + k) % n ≠ p) ∨
      ∃ k, ∃ hk : k < as.length, lay n as i page p = as[k] ∧ (i + k) % n = p ∧ as.length ≤ k + n := by
  induction as generalizing i page with
  | nil => exact Or.inl ⟨rfl, fun k hk => absurd hk (Nat.not_lt_zero k)⟩
  | cons a as ih =>
    have hpos : 0 < n := Nat.zero_lt_of_lt hi
    have hnext (k : Nat) : ((i + 1) % n + k) % n = (i + (k + 1)) % n := by
      rw [Nat.mod_add_mod, Nat.add_assoc, Nat.add_comm 1 k]
    rw [lay]
    rcases ih (Nat.mod_lt (i + 1) hpos) (Function.update page i a) with
      ⟨heq, hno⟩ | ⟨k, hk, heq, hp, hlast⟩
    · by_cases hpi : p = i
      · -- the first item is here, and the others do not come round to it
        refine Or.inr ⟨0, Nat.zero_lt_succ _, ?_, ?_, ?_⟩
        · rw [heq, hpi, Function.update_self]
          rfl
        · rw [Nat.add_zero, Nat.mod_eq_of_lt hi, hpi]
        · by_contra hlong
          rw [List.length_cons] at hlong
          apply hno (n - 1) (by omega)
          rw [hnext, Nat.sub_add_cancel hpos, Nat.add_mod_right, Nat.mod_eq_of_lt hi, hpi]
      · refine Or.inl ⟨by rw [heq, Function.update_of_ne hpi], fun k hk => ?_⟩
        cases k with
        | zero =>
          rw [Nat.add_zero, Nat.mod_eq_of_lt hi]
          exact fun h => hpi h.symm
        | succ k =>
          rw [← hnext]
          exact hno k (Nat.lt_of_succ_lt_succ hk)
    · refine Or.inr ⟨k + 1, Nat.succ_lt_succ hk, ?_, ?_, ?_⟩
      · rw [heq]
        rfl
      · rw [← hnext]
        exact hp
      · rw [List.length_cons]
        omega

end WrappedPage
