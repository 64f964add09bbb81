import Mathlib.Tactic.Common

/-! The interval of a value among growing bounds, which a loop finds from below. -/

namespace Intervals

variable (bound : Nat → Nat) (x : Nat)

/-- The loop goes on while the value has reached the next bound. -/
def locate : Nat → Nat → Nat
  | 0, i => i
  | fuel + 1, i => if bound (i + 1) ≤ x then locate fuel (i + 1) else i

variable {bound x}

theorem locate_spec {fuel i : Nat} (h : bound i ≤ x) (hend : x < bound (i + fuel)) :
    i ≤ locate bound x fuel i ∧ locate bound x fuel i < i + fuel ∧
      bound (locate bound x fuel i) ≤ x ∧ x < bound (locate bound x fuel i + 1) := by
  induction fuel generalizing i with
  | zero => exact absurd h (Nat.not_le_of_lt hend)
  | succ fuel ih =>
    unfold locate
    by_cases hnext : bound (i + 1) ≤ x
    · have hsum : i + 1 + fuel = i + (fuel + 1) := by omega
      obtain ⟨hle, hlt, hin⟩ := ih hnext (hsum ▸ hend)
      rw [if_pos hnext]
      exact ⟨by omega, by omega, hin⟩
    · rw [if_neg hnext]
      exact ⟨Nat.le_refl i, by omega, h, Nat.lt_of_not_le hnext⟩

end Intervals
