import Mathlib.Tactic.Common

/-! Shift registers of several words: the bits that came in last, and how many of them were set. -/

namespace ShiftRegisters

/-- How many of the last `n` are set. -/
def recent (n : Nat) (history : List Bool) : Nat := (history.reverse.take n).count true

/-- The one that leaves the last `n` when another comes. -/
def leaving (n : Nat) (history : List Bool) : Bool := (history.reverse[n - 1]?).getD false

section Windows

variable {n : Nat} {history : List Bool}

theorem recent_le (n : Nat) (history : List Bool) : recent n history ≤ n :=
  Nat.le_trans List.count_le_length (by rw [List.length_take]; exact Nat.min_le_left _ _)

theorem recent_concat (hn : 0 < n) (history : List Bool) (b : Bool) :
    recent n (history ++ [b]) + (if leaving n history then 1 else 0) =
      recent n history + if b then 1 else 0 := by
  obtain ⟨m, rfl⟩ : ∃ m, n = m + 1 := ⟨n - 1, by omega⟩
  have hlast : (history.reverse[m]?.toList).count true = if leaving (m + 1) history then 1 else 0 := by
    rw [leaving, Nat.add_sub_cancel]
    cases history.reverse[m]? with
    | none => rfl
    | some b => cases b <;> rfl
  rw [recent, recent, List.reverse_append, List.reverse_singleton, List.singleton_append,
    List.take_succ_cons, List.count_cons, List.take_add_one, List.count_append, hlast]
  cases b
  · simp
  · simp
    omega

theorem recent_mono {k : Nat} (h : k ≤ n) : recent n history =
    recent k history + ((history.reverse.take n).drop k).count true := by
  have hsplit := List.take_append_drop k (history.reverse.take n)
  rw [List.take_take, Nat.min_eq_left h] at hsplit
  rw [recent, recent, ← List.count_append, hsplit]

/-- Two windows count the same all along exactly when nothing set has left the shorter one. -/
theorem recent_eq_iff {k : Nat} (h : k < n) :
    (∀ pre, pre <+: history → recent n pre = recent k pre) ↔
      true ∉ history.take (history.length - k) := by
  have hdiff : ∀ pre, recent n pre = recent k pre ↔ true ∉ (pre.reverse.take n).drop k := by
    intro pre
    rw [recent_mono (Nat.le_of_lt h), Nat.add_eq_left, List.count_eq_zero]
  simp only [hdiff]
  constructor
  · intro hall hmem
    obtain ⟨i, hi, hset⟩ := List.mem_iff_getElem.mp hmem
    rw [List.length_take] at hi
    rw [List.getElem_take] at hset
    refine hall (history.take (i + k + 1)) (List.take_prefix _ _) ?_
    have hlen : (history.take (i + k + 1)).length = i + k + 1 := by
      rw [List.length_take]
      omega
    rw [List.mem_iff_getElem?]
    refine ⟨0, ?_⟩
    rw [List.getElem?_drop, List.getElem?_take_of_lt (by omega), Nat.add_zero,
      List.getElem?_reverse (by omega), hlen, List.getElem?_take_of_lt (by omega)]
    have hpos : i + k + 1 - 1 - (k + 0) = i := by omega
    rw [hpos, List.getElem?_eq_getElem (by omega), hset]
  · rintro hleft pre ⟨rest, rfl⟩ hmem
    refine hleft ?_
    have hdrop : true ∈ pre.reverse.drop k := by
      rw [List.drop_take] at hmem
      exact List.mem_of_mem_take hmem
    rw [List.drop_reverse, List.mem_reverse] at hdrop
    have hsub : pre.length - k ≤ (pre ++ rest).length - k := by
      rw [List.length_append]
      omega
    have htake : pre.take (pre.length - k) <+: (pre ++ rest).take ((pre ++ rest).length - k) := by
      have hcut : (pre ++ rest).take (pre.length - k) = pre.take (pre.length - k) :=
        List.take_append_of_le_length (Nat.sub_le pre.length k)
      rw [← hcut]
      exact List.take_prefix_take_left hsub
    exact htake.subset hdrop

end Windows

section Registers

variable {w : Nat}

def wordBits (x : BitVec w) : List Bool := (List.range w).map x.getLsbD

/-- The bits of the register, the one that came last first. -/
def bits : List (BitVec w) → List Bool
  | [] => []
  | x :: xs => wordBits x ++ bits xs

/-- Every word takes in the bit that the word before it puts out. -/
def shift (b : Bool) : List (BitVec w) → List (BitVec w)
  | [] => []
  | x :: xs => x.shiftConcat b :: shift x.msb xs

/-- The register holds what came in last, over zeros. -/
def Holds (xs : List (BitVec w)) (history : List Bool) : Prop :=
  bits xs = (history.reverse ++ List.replicate (xs.length * w) false).take (xs.length * w)

@[simp] theorem wordBits_length (x : BitVec w) : (wordBits x).length = w := by simp [wordBits]

@[simp] theorem bits_length (xs : List (BitVec w)) : (bits xs).length = xs.length * w := by
  induction xs with
  | nil => simp [bits]
  | cons x xs ih =>
    rw [bits, List.length_append, wordBits_length, ih, List.length_cons, Nat.succ_mul, Nat.add_comm]

@[simp] theorem shift_length (b : Bool) (xs : List (BitVec w)) : (shift b xs).length = xs.length := by
  induction xs generalizing b with
  | nil => rfl
  | cons x xs ih => rw [shift, List.length_cons, ih, List.length_cons]

theorem getElem?_shift (b : Bool) (xs : List (BitVec w)) (i : Nat) : (shift b xs)[i]? =
    xs[i]?.map fun x => x.shiftConcat (if i = 0 then b else (xs.getD (i - 1) 0#w).msb) := by
  induction xs generalizing b i with
  | nil => rfl
  | cons x xs ih =>
    cases i with
    | zero => rfl
    | succ i =>
      rw [shift, List.getElem?_cons_succ, ih, List.getElem?_cons_succ]
      cases i <;> rfl

theorem bits_append (xs ys : List (BitVec w)) : bits (xs ++ ys) = bits xs ++ bits ys := by
  induction xs with
  | nil => rfl
  | cons x xs ih => rw [List.cons_append, bits, bits, ih, List.append_assoc]

/-- A word takes a bit in at the low end and puts its high one out. -/
theorem wordBits_shiftConcat (x : BitVec w) (b : Bool) (hw : 0 < w) :
    wordBits (x.shiftConcat b) ++ [x.msb] = b :: wordBits x := by
  obtain ⟨m, rfl⟩ : ∃ m, w = m + 1 := ⟨w - 1, by omega⟩
  have hmsb : x.msb = x.getLsbD m := BitVec.msb_eq_getLsbD_last x
  have hlow : wordBits (x.shiftConcat b) = b :: (List.range m).map x.getLsbD := by
    rw [wordBits, List.range_succ_eq_map, List.map_cons, List.map_map]
    congr 1
    · simp
    · apply List.map_congr_left
      intro i hi
      rw [List.mem_range] at hi
      simp [BitVec.getLsbD_shiftConcat]
      omega
  rw [hlow, hmsb, wordBits, List.range_succ, List.map_append, List.cons_append]
  rfl

theorem bits_shift (b : Bool) (xs : List (BitVec w)) (hw : 0 < w) :
    bits (shift b xs) = (b :: bits xs).take (xs.length * w) := by
  induction xs generalizing b with
  | nil => simp [shift, bits]
  | cons x xs ih =>
    have hword := wordBits_shiftConcat x b hw
    have hcons : b :: (wordBits x ++ bits xs) =
        wordBits (x.shiftConcat b) ++ (x.msb :: bits xs) := by
      rw [← List.cons_append, ← hword, List.append_assoc]
      rfl
    rw [shift, bits, bits, ih, hcons, List.take_append, wordBits_length, List.length_cons,
      Nat.succ_mul, Nat.add_sub_cancel,
      List.take_of_length_le (l := wordBits _) (by rw [wordBits_length]; omega)]

theorem Holds.shift {xs : List (BitVec w)} {history : List Bool} (h : Holds xs history) (b : Bool)
    (hw : 0 < w) : Holds (shift b xs) (history ++ [b]) := by
  rw [Holds, bits_shift b xs hw, h, shift_length, List.reverse_append, List.reverse_singleton,
    List.singleton_append, List.cons_append]
  cases xs.length * w with
  | zero => rfl
  | succ m =>
    rw [List.take_succ_cons, List.take_succ_cons, List.take_take, Nat.min_eq_left (Nat.le_succ m)]

theorem holds_replicate (n : Nat) : Holds (List.replicate n (0#w)) [] := by
  rw [Holds, List.length_replicate, List.reverse_nil, List.nil_append,
    List.take_of_length_le (Nat.le_of_eq List.length_replicate)]
  induction n with
  | zero => simp [bits]
  | succ n ih =>
    have hzero : wordBits (0#w) = List.replicate w false := by
      rw [List.eq_replicate_iff]
      simp [wordBits]
    rw [List.replicate_succ, bits, ih, hzero, List.replicate_append_replicate, Nat.succ_mul,
      Nat.add_comm]

/-- The high bit of the last word is the one that leaves the register next. -/
theorem Holds.msb {xs : List (BitVec w)} {x : BitVec w} {history : List Bool}
    (h : Holds (xs ++ [x]) history) (hw : 0 < w) :
    x.msb = leaving ((xs.length + 1) * w) history := by
  obtain ⟨m, rfl⟩ : ∃ m, w = m + 1 := ⟨w - 1, by omega⟩
  have hlen : (xs ++ [x]).length * (m + 1) = xs.length * (m + 1) + m + 1 := by
    rw [List.length_append, List.length_singleton, Nat.succ_mul]
    rfl
  have hlast : (bits (xs ++ [x]))[xs.length * (m + 1) + m]? = some x.msb := by
    rw [bits_append, List.getElem?_append_right (by rw [bits_length]; omega), bits_length,
      Nat.add_sub_cancel_left, bits, bits, List.append_nil, wordBits, List.getElem?_map,
      List.getElem?_range (Nat.lt_succ_self m), BitVec.msb_eq_getLsbD_last]
    rfl
  rw [h, hlen, List.getElem?_take_of_lt (Nat.lt_succ_self _)] at hlast
  rw [leaving, Nat.succ_mul, ← Nat.add_assoc, Nat.add_sub_cancel]
  rcases Nat.lt_or_ge (xs.length * (m + 1) + m) history.reverse.length with hlt | hge
  · rw [List.getElem?_append_left hlt] at hlast
    rw [hlast]
    rfl
  · rw [List.getElem?_append_right hge, List.getElem?_replicate, if_pos (by omega)] at hlast
    rw [List.getElem?_eq_none hge]
    exact (Option.some.inj hlast).symm

end Registers

end ShiftRegisters
