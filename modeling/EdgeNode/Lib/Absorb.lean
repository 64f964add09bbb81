import Mathlib.Data.List.Basic
import Mathlib.Tactic.Common

/-! Functions that take a text in blocks of `n`, and hold back what is shorter than `hold`. -/

namespace Absorb

variable {σ α : Type} (f : σ → List α → σ) (n hold : Nat)

/-- `while (len >= hold)`, a block at a time. -/
def absorb (s : σ) (l : List α) : σ × List α :=
  if _h : 0 < n ∧ n ≤ hold ∧ hold ≤ l.length then absorb (f s (l.take n)) (l.drop n) else (s, l)
termination_by l.length

variable {f n hold} (s : σ) (l m : List α)

theorem absorb_of_lt (h : l.length < hold) : absorb f n hold s l = (s, l) := by
  rw [absorb, dif_neg (by omega)]

theorem absorb_of_le (hn : 0 < n) (hle : n ≤ hold) (h : hold ≤ l.length) :
    absorb f n hold s l = absorb f n hold (f s (l.take n)) (l.drop n) := by
  rw [absorb, dif_pos ⟨hn, hle, h⟩]

theorem absorb_length (hn : 0 < n) (hle : n ≤ hold) : (absorb f n hold s l).2.length < hold := by
  induction s, l using absorb.induct f n hold with
  | case1 s l h ih => rwa [absorb_of_le s l hn hle h.2.2]
  | case2 s l h =>
    have hlt : l.length < hold := by omega
    rwa [absorb_of_lt s l hlt]

/-- What was held back is taken with what comes next. -/
theorem absorb_append (hn : 0 < n) (hle : n ≤ hold) : absorb f n hold s (l ++ m) =
    absorb f n hold (absorb f n hold s l).1 ((absorb f n hold s l).2 ++ m) := by
  induction s, l using absorb.induct f n hold with
  | case1 s l h ih =>
    have hlen : n ≤ l.length := Nat.le_trans hle h.2.2
    have happend : hold ≤ (l ++ m).length := by
      rw [List.length_append]
      omega
    rw [absorb_of_le s l hn hle h.2.2, absorb_of_le s _ hn hle happend, List.take_append_of_le_length hlen,
      List.drop_append_of_le_length hlen, ih]
  | case2 s l h =>
    have hlt : l.length < hold := by omega
    rw [absorb_of_lt s l hlt]

/-- However a text is cut, it is taken as the whole. -/
theorem foldl_absorb (hn : 0 < n) (hle : n ≤ hold) (chunks : List (List α)) (h : l.length < hold) :
    chunks.foldl (fun p c => absorb f n hold p.1 (p.2 ++ c)) (s, l) =
      absorb f n hold s (l ++ chunks.flatten) := by
  induction chunks generalizing s l with
  | nil => rw [List.foldl_nil, List.flatten_nil, List.append_nil, absorb_of_lt s l h]
  | cons c chunks ih =>
    rw [List.foldl_cons, List.flatten_cons, ← List.append_assoc, absorb_append s (l ++ c) _ hn hle]
    exact ih _ _ (absorb_length s (l ++ c) hn hle)

/-- The blocks that are taken, by their number. -/
theorem absorb_eq (hn : 0 < n) (hle : n ≤ hold) : absorb f n hold s l =
    ((List.range ((l.length + n - hold) / n)).foldl (fun s i => f s ((l.drop (n * i)).take n)) s,
      l.drop (n * ((l.length + n - hold) / n))) := by
  induction s, l using absorb.induct f n hold with
  | case1 s l h ih =>
    have hlen : n ≤ l.length := Nat.le_trans hle h.2.2
    have hcount : (l.length + n - hold) / n = ((l.drop n).length + n - hold) / n + 1 := by
      rw [List.length_drop, show l.length + n - hold = (l.length - n + n - hold) + n by omega,
        Nat.add_div_right _ hn]
    rw [absorb_of_le s l hn hle h.2.2, ih, hcount, List.range_succ_eq_map, List.foldl_cons, List.foldl_map,
      Nat.mul_zero, List.drop_zero]
    simp only [List.drop_drop, Nat.succ_eq_add_one, Nat.mul_add, Nat.mul_one, Nat.add_comm n]
  | case2 s l h =>
    have hlt : l.length < hold := by omega
    rw [absorb_of_lt s l hlt, Nat.div_eq_of_lt (by omega)]
    rfl

end Absorb
