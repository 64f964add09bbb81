import Mathlib.Data.List.Basic
import Mathlib.Tactic.Common

/-! A queue of bounded length that gives up its oldest element for a new one. -/

namespace DropOldest

variable {α : Type} {n : Nat} {q : List α}

/-- The queue of at most `n` elements with `x` behind the others. -/
def put (n : Nat) (q : List α) (x : α) : List α := (q ++ [x]).drop (q.length + 1 - n)

theorem put_of_lt (h : q.length < n) (x : α) : put n q x = q ++ [x] := by
  rw [put, Nat.sub_eq_zero_of_le h, List.drop_zero]

theorem put_of_full (h : q.length = n) (x : α) : put n q x = (q ++ [x]).tail := by
  rw [put, h, Nat.add_sub_cancel_left, List.drop_one]

theorem map_put {β : Type} (f : α → β) (n : Nat) (q : List α) (x : α) :
    (put n q x).map f = put n (q.map f) (f x) := by
  simp only [put, List.map_drop, List.map_append, List.map_singleton, List.length_map]

end DropOldest
