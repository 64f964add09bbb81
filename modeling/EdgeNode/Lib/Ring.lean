import Mathlib.Data.List.Basic
import Mathlib.Logic.Function.Basic
import Mathlib.Tactic.Common

/-! Memory blocks and circular windows: the elements that a buffer of `n` cells holds
between a head index and an element count, and what block copies make of them. -/

namespace Ring

variable {α : Type} {m : Nat → α} {n head count : Nat}

/-- The `k` cells from index `i` on. -/
def block (mem : Nat → α) (i k : Nat) : List α := (List.range k).map fun j => mem (i + j)

/-- A copy of `xs` to the cells from index `i` on. -/
def store (mem : Nat → α) (i : Nat) (xs : List α) : Nat → α :=
  fun j => if i ≤ j then xs.getD (j - i) (mem j) else mem j

/-- The `count` elements from index `head` on in a buffer of `n` cells, around its end. -/
def window (mem : Nat → α) (n head count : Nat) : List α :=
  (List.range count).map fun j => mem ((head + j) % n)

@[simp] theorem block_length (i k : Nat) : (block m i k).length = k := by simp [block]

@[simp] theorem window_length : (window m n head count).length = count := by simp [window]

@[simp] theorem window_zero : window m n head 0 = [] := rfl

theorem block_append (i k l : Nat) : block m i (k + l) = block m i k ++ block m (i + k) l := by
  simp [block, List.range_add, Nat.add_assoc, Function.comp_def]

theorem block_take (i k l : Nat) : (block m i k).take l = block m i (min l k) := by
  simp [block, ← List.map_take, List.take_range]

theorem window_append (k l : Nat) :
    window m n head (k + l) = window m n head k ++ window m n ((head + k) % n) l := by
  simp [window, List.range_add, Nat.add_assoc, Function.comp_def]

theorem window_take (k : Nat) :
    (window m n head count).take k = window m n head (min k count) := by
  simp [window, ← List.map_take, List.take_range]

theorem window_drop {k : Nat} (hk : k ≤ count) :
    (window m n head count).drop k = window m n ((head + k) % n) (count - k) := by
  obtain ⟨l, rfl⟩ := Nat.exists_eq_add_of_le hk
  rw [window_append, Nat.add_sub_cancel_left]
  exact List.drop_left' window_length

theorem window_eq_block (h : head + count ≤ n) : window m n head count = block m head count := by
  apply List.map_congr_left
  intro j hj
  rw [List.mem_range] at hj
  rw [Nat.mod_eq_of_lt (by omega)]

theorem window_eq_blocks (hh : head < n) (h : n ≤ head + count) (hc : count ≤ n) :
    window m n head count = block m head (n - head) ++ block m 0 (count - (n - head)) := by
  obtain ⟨l, rfl⟩ := Nat.exists_eq_add_of_le (by omega : n - head ≤ count)
  rw [window_append, window_eq_block (by omega), Nat.add_sub_of_le (Nat.le_of_lt hh), Nat.mod_self,
    Nat.add_sub_cancel_left, window_eq_block (by omega)]

theorem window_update (hc : count < n) (x : α) :
    window (Function.update m ((head + count) % n) x) n head (count + 1) =
      window m n head count ++ [x] := by
  have hne : ∀ j ∈ List.range count, (head + j) % n ≠ (head + count) % n := by
    intro j hj he
    rw [List.mem_range] at hj
    have hd := Nat.sub_mod_eq_zero_of_mod_eq he.symm
    rw [Nat.add_sub_add_left, Nat.mod_eq_of_lt (by omega)] at hd
    omega
  simp only [window, List.range_succ, List.map_append, List.map_cons, List.map_nil,
    Function.update_self]
  congr 1
  apply List.map_congr_left
  intro j hj
  rw [Function.update_of_ne (hne j hj)]

theorem block_store_below {i k l : Nat} (h : i + k ≤ l) (xs : List α) :
    block (store m l xs) i k = block m i k := by
  apply List.map_congr_left
  intro j hj
  rw [List.mem_range] at hj
  rw [store, if_neg (by omega)]

theorem block_store_self (i : Nat) (xs : List α) : block (store m i xs) i xs.length = xs := by
  apply List.ext_getElem (block_length i xs.length)
  intro j hj hx
  simp [block, store, hx]

theorem block_store_append (i k : Nat) (xs : List α) :
    block (store m (i + k) xs) i (k + xs.length) = block m i k ++ xs := by
  rw [block_append, block_store_below (Nat.le_refl _), block_store_self]

end Ring
