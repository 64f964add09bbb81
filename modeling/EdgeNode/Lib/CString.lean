import Mathlib.Data.List.Basic
import Mathlib.Tactic.Common

/-! C strings in a buffer of bytes: functions that search and cut them in place, without a value where
they leave the buffer, and what they find when a string is split at a byte. -/

namespace CString

/-- The text of a string, which has no terminator in it. -/
abbrev Text := { s : List UInt8 // 0 ∉ s }

/-- The bytes that the string takes in memory. -/
def Text.buffer (s : Text) : List UInt8 := s.val ++ [0]

/-- The text that a pointer into the buffer stands for. -/
def textAt (buf : List UInt8) (p : Nat) : List UInt8 := (buf.drop p).takeWhile (· ≠ 0)

def poke (buf : List UInt8) (i : Nat) (b : UInt8) : Option (List UInt8) :=
  if i < buf.length then some (buf.set i b) else none

def pokeBytes (buf : List UInt8) (i : Nat) : List UInt8 → Option (List UInt8)
  | [] => some buf
  | b :: bs => do
    let buf ← poke buf i b
    pokeBytes buf (i + 1) bs

/-- The position of the first `c` or terminator from `p` on. -/
def spanFrom (c : UInt8) : List UInt8 → Nat → Option Nat
  | [], _ => none
  | b :: bs, p => if b = c ∨ b = 0 then some p else spanFrom c bs (p + 1)

def strchr (buf : List UInt8) (p : Nat) (c : UInt8) : Option (Option Nat) := do
  let e ← spanFrom c (buf.drop p) p
  let b ← buf[e]?
  some (if b = c then some e else none)

def strlen (buf : List UInt8) (p : Nat) : Option Nat := do
  let e ← spanFrom 0 (buf.drop p) p
  some (e - p)

/-- The position of the first byte other than `c` from `p` on. -/
def skipFrom (c : UInt8) : List UInt8 → Nat → Option Nat
  | [], _ => none
  | b :: bs, p => if b = c then skipFrom c bs (p + 1) else some p

/-- The buffer with the token cut off, the token and where the next call goes on. -/
def strtok (buf : List UInt8) (p : Nat) (c : UInt8) : Option (List UInt8 × Option Nat × Nat) := do
  let p ← skipFrom c (buf.drop p) p
  let b ← buf[p]?
  if b = 0 then some (buf, none, p)
  else do
    let e ← spanFrom c (buf.drop p) p
    let d ← buf[e]?
    if d = 0 then some (buf, some p, e)
    else do
      let buf ← poke buf e 0
      some (buf, some p, e + 1)

section Splits

variable {α : Type} [DecidableEq α]

/-- A list has no separator or is a piece without one, a separator and the rest. -/
theorem split_induction (c : α) {P : List α → Prop} (last : ∀ s, c ∉ s → P s)
    (next : ∀ piece s, c ∉ piece → P s → P (piece ++ c :: s)) (s : List α) : P s := by
  by_cases hc : c ∈ s
  · obtain ⟨piece, rest, hs, hpiece⟩ := List.eq_append_cons_of_mem hc
    have hlt : rest.length < s.length := by
      simp only [hs, List.length_append, List.length_cons]
      omega
    rw [hs]
    exact next piece rest hpiece (split_induction c last next rest)
  · exact last s hc
termination_by s.length

/-- The pieces that are not empty. -/
def tokens (c : α) (s : List α) : List (List α) := (s.splitOn c).filter (· ≠ [])

theorem tokens_last {c : α} {s : List α} (h : c ∉ s) :
    tokens c s = if s = [] then [] else [s] := by
  rw [tokens, List.splitOn_eq_singleton h]
  split
  next hs => simp [hs]
  next hs => simp [hs]

theorem tokens_next {c : α} {piece : List α} (h : c ∉ piece) (s : List α) :
    tokens c (piece ++ c :: s) = (if piece = [] then [] else [piece]) ++ tokens c s := by
  rw [tokens, List.splitOn_append_cons_self_of_not_mem h, tokens]
  split
  next hp => simp [hp]
  next hp => simp [hp]

end Splits

section Access

variable {pre post piece : List UInt8} {b c : UInt8}

theorem textAt_append (h : 0 ∉ piece) :
    textAt (pre ++ (piece ++ 0 :: post)) pre.length = piece := by
  rw [textAt, List.drop_left]
  induction piece with
  | nil => simp
  | cons x xs ih =>
    rw [List.mem_cons, not_or] at h
    rw [List.cons_append, List.takeWhile_cons_of_pos (by simpa using Ne.symm h.1), ih h.2]

theorem poke_append (pre post : List UInt8) (b x : UInt8) :
    poke (pre ++ b :: post) pre.length x = some (pre ++ x :: post) := by
  have hlt : pre.length < (pre ++ b :: post).length := by simp
  rw [poke, if_pos hlt]
  simp

theorem pokeBytes_eq (buf : List UInt8) (i : Nat) (bs : List UInt8) (hi : i ≤ buf.length) :
    pokeBytes buf i bs = if i + bs.length ≤ buf.length then
      some (buf.take i ++ (bs ++ buf.drop (i + bs.length))) else none := by
  induction bs generalizing buf i with
  | nil => simp [pokeBytes, hi]
  | cons x xs ih =>
    rw [pokeBytes, poke]
    by_cases hlt : i < buf.length
    · have hset : (buf.set i x).take (i + 1) = buf.take i ++ [x] := by
        rw [List.take_succ_eq_append_getElem (by simpa using hlt), List.getElem_set_self,
          List.take_set,
          List.set_eq_of_length_le (by rw [List.length_take]; exact Nat.min_le_left _ _)]
      have hdrop : (buf.set i x).drop (i + 1 + xs.length) = buf.drop (i + (xs.length + 1)) := by
        rw [List.drop_set_of_lt (by omega)]
        congr 1
        omega
      rw [if_pos hlt, Option.bind_eq_bind, Option.bind_some, ih _ _ (by rw [List.length_set]; exact hlt),
        List.length_set, List.length_cons, hset, hdrop, List.append_assoc]
      have hsum : i + 1 + xs.length = i + (xs.length + 1) := by omega
      rw [hsum]
      rfl
    · have hlong : ¬ i + (x :: xs).length ≤ buf.length := by
        rw [List.length_cons]
        omega
      rw [if_neg hlt, if_neg hlong]
      rfl

theorem spanFrom_append (hc : c ∉ piece) (hz : 0 ∉ piece) (hb : b = c ∨ b = 0) (p : Nat) :
    spanFrom c (piece ++ b :: post) p = some (p + piece.length) := by
  induction piece generalizing p with
  | nil => exact if_pos hb
  | cons x xs ih =>
    rw [List.mem_cons, not_or] at hc hz
    have hx : ¬ (x = c ∨ x = 0) := by
      rintro (h | h)
      · exact hc.1 h.symm
      · exact hz.1 h.symm
    rw [List.cons_append, spanFrom, if_neg hx, ih hc.2 hz.2, List.length_cons, Nat.add_assoc,
      Nat.add_comm 1]

theorem strchr_found (hc : c ∉ piece) (hz : 0 ∉ piece) :
    strchr (pre ++ (piece ++ c :: post)) pre.length c = some (some (pre.length + piece.length)) := by
  rw [strchr, List.drop_left, spanFrom_append hc hz (.inl rfl)]
  simp

theorem strchr_missing (hc : c ∉ piece) (hz : 0 ∉ piece) (hne : c ≠ 0) :
    strchr (pre ++ (piece ++ 0 :: post)) pre.length c = some none := by
  rw [strchr, List.drop_left, spanFrom_append hc hz (.inr rfl)]
  simp [hne.symm]

theorem strchr_isSome (pre post : List UInt8) (hz : 0 ∉ piece) (hne : c ≠ 0) :
    ∃ r, strchr (pre ++ (piece ++ 0 :: post)) pre.length c = some r ∧
      (r.isSome = true ↔ c ∈ piece) := by
  by_cases hc : c ∈ piece
  · obtain ⟨first, rest, rfl, hfirst⟩ := List.eq_append_cons_of_mem hc
    have hz' : 0 ∉ first := fun h => hz (List.mem_append_left _ h)
    refine ⟨some (pre.length + first.length), ?_, iff_of_true rfl hc⟩
    rw [List.append_assoc, List.cons_append]
    exact strchr_found hfirst hz'
  · exact ⟨none, strchr_missing hc hz hne, iff_of_false Bool.false_ne_true hc⟩

theorem strlen_append (pre post : List UInt8) (hz : 0 ∉ piece) :
    strlen (pre ++ (piece ++ 0 :: post)) pre.length = some piece.length := by
  rw [strlen, List.drop_left, spanFrom_append hz hz (.inl rfl)]
  simp

/-- Leading separators are passed over. -/
theorem strtok_skip (pre post : List UInt8) (c : UInt8) :
    strtok (pre ++ c :: post) pre.length c = strtok ((pre ++ [c]) ++ post) (pre ++ [c]).length c := by
  have hsame : pre ++ c :: post = (pre ++ [c]) ++ post := by rw [List.append_assoc]; rfl
  have hskip : skipFrom c ((pre ++ c :: post).drop pre.length) pre.length =
      skipFrom c (((pre ++ [c]) ++ post).drop (pre ++ [c]).length) (pre ++ [c]).length := by
    rw [List.drop_left, List.drop_left, skipFrom, if_pos rfl, List.length_append]
    rfl
  unfold strtok
  rw [hskip, hsame]

theorem skipFrom_head (hb : b ≠ c) : skipFrom c ((pre ++ b :: post).drop pre.length) pre.length =
    some pre.length := by
  rw [List.drop_left, skipFrom, if_neg hb]

theorem strtok_end (hne : c ≠ 0) :
    strtok (pre ++ 0 :: post) pre.length c = some (pre ++ 0 :: post, none, pre.length) := by
  rw [strtok, skipFrom_head hne.symm]
  simp

/-- What is left at the start of a token: it ends before `d`, which is cut unless it is the
terminator. -/
theorem strtok_token {d : UInt8} (pre post : List UInt8) (hc : c ∉ piece) (hz : 0 ∉ piece)
    (hp : piece ≠ []) (hd : d = c ∨ d = 0) :
    strtok (pre ++ (piece ++ d :: post)) pre.length c =
      if d = 0 then
        some (pre ++ (piece ++ d :: post), some pre.length, pre.length + piece.length)
      else some (pre ++ (piece ++ 0 :: post), some pre.length, pre.length + piece.length + 1) := by
  obtain ⟨x, xs, rfl⟩ := List.exists_cons_of_ne_nil hp
  have hx : x ≠ c := fun h => hc (h ▸ List.mem_cons_self)
  have hx0 : x ≠ 0 := fun h => hz (h ▸ List.mem_cons_self)
  have hstart : (pre ++ (x :: xs ++ d :: post))[pre.length]? = some x := by simp
  have hstop : (pre ++ (x :: xs ++ d :: post))[pre.length + (x :: xs).length]? = some d := by
    rw [List.getElem?_append_right (Nat.le_add_right _ _), Nat.add_sub_cancel_left,
      List.getElem?_append_right (Nat.le_refl _), Nat.sub_self]
    rfl
  have hpoke := poke_append (pre ++ x :: xs) post d 0
  rw [List.append_assoc, List.append_assoc, List.length_append] at hpoke
  have hskip : skipFrom c ((pre ++ (x :: xs ++ d :: post)).drop pre.length) pre.length =
      some pre.length := skipFrom_head hx
  rw [strtok, hskip]
  simp only [Option.bind_eq_bind, Option.bind_some]
  rw [hstart, Option.bind_some, if_neg hx0, List.drop_left, spanFrom_append hc hz hd,
    Option.bind_some, hstop, Option.bind_some, hpoke]
  rfl

end Access

end CString
