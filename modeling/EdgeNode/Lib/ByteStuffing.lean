import Mathlib.Data.List.Basic
import Mathlib.Tactic.Common

/-! Byte stuffing: reserved symbols are sent as an escape and an image, and read back with a mark
whether they were. -/

namespace ByteStuffing

/-- The images of the reserved symbols, of which the escape is one, and what an image stands for. -/
structure Code (α : Type) where
  esc : α
  encode : α → Option α
  decode : α → Option α
  esc_reserved : (encode esc).isSome
  decode_encode : ∀ x y, encode x = some y → decode y = some x

variable {α : Type} (c : Code α)

def Code.stuffOne (x : α) : List α :=
  match c.encode x with
  | some y => [c.esc, y]
  | none => [x]

def Code.stuff (xs : List α) : List α := xs.flatMap c.stuffOne

section Stuff

variable {c}

theorem stuff_append (xs ys : List α) : c.stuff (xs ++ ys) = c.stuff xs ++ c.stuff ys :=
  List.flatMap_append

theorem stuff_cons (x : α) (xs : List α) : c.stuff (x :: xs) = c.stuffOne x ++ c.stuff xs :=
  List.flatMap_cons

theorem length_le_stuff (xs : List α) : xs.length ≤ (c.stuff xs).length := by
  induction xs with
  | nil => exact Nat.zero_le _
  | cons x xs ih =>
    rw [stuff_cons, List.length_append, Code.stuffOne]
    cases c.encode x with
    | none =>
      show xs.length + 1 ≤ 1 + (c.stuff xs).length
      omega
    | some y =>
      show xs.length + 1 ≤ 2 + (c.stuff xs).length
      omega

/-- What has no reserved symbol is sent as it is, and nothing else is. -/
theorem stuff_eq_self (xs : List α) : c.stuff xs = xs ↔ ∀ x ∈ xs, c.encode x = none := by
  induction xs with
  | nil => exact iff_of_true rfl fun x hx => absurd hx List.not_mem_nil
  | cons x xs ih =>
    rw [stuff_cons, List.forall_mem_cons, ← ih, Code.stuffOne]
    cases hx : c.encode x with
    | none =>
      rw [and_iff_right rfl]
      exact List.cons_inj_right x
    | some y =>
      apply iff_of_false
      · intro h
        have hlen := congrArg List.length h
        have hle := length_le_stuff (c := c) xs
        rw [List.length_append, List.length_cons, List.length_cons, List.length_nil,
          List.length_cons] at hlen
        omega
      · rintro ⟨h, -⟩
        cases h

end Stuff

variable [DecidableEq α]

/-- An escape without an image behind it stands alone: it is read as itself, or not at all. -/
def Code.alone (keep : Bool) : List (α × Bool) := if keep then [(c.esc, false)] else []

def Code.unstuff (keep : Bool) : List α → List (α × Bool)
  | [] => []
  | [b] => if b = c.esc then c.alone keep else [(b, false)]
  | b :: x :: bs =>
    if b = c.esc then
      match c.decode x with
      | some y => (y, true) :: Code.unstuff keep bs
      | none => c.alone keep ++ Code.unstuff keep (x :: bs)
    else (b, false) :: Code.unstuff keep (x :: bs)

/-- The next symbol and what is left behind it. -/
def Code.next (keep : Bool) : List α → Option ((α × Bool) × List α)
  | [] => none
  | [b] => if b = c.esc ∧ keep = false then none else some ((b, false), [])
  | b :: x :: bs =>
    if b = c.esc then
      match c.decode x with
      | some y => some ((y, true), bs)
      | none => if keep then some ((b, false), x :: bs) else Code.next keep (x :: bs)
    else some ((b, false), x :: bs)

/-- The first `n` symbols and what is left behind them. -/
def Code.read (keep : Bool) : Nat → List α → Option (List (α × Bool) × List α)
  | 0, bs => some ([], bs)
  | n + 1, bs => do
    let (s, bs) ← c.next keep bs
    let (items, bs) ← Code.read keep n bs
    some (s :: items, bs)

variable {c} {keep : Bool}

section Unstuff

theorem unstuff_cons {b : α} (h : b ≠ c.esc) (bs : List α) :
    c.unstuff keep (b :: bs) = (b, false) :: c.unstuff keep bs := by
  cases bs with
  | nil => simp only [Code.unstuff, if_neg h]
  | cons x bs => rw [Code.unstuff, if_neg h]

theorem unstuff_image {x y : α} (h : c.decode x = some y) (bs : List α) :
    c.unstuff keep (c.esc :: x :: bs) = (y, true) :: c.unstuff keep bs := by
  rw [Code.unstuff, if_pos rfl, h]

theorem unstuff_alone {x : α} (h : c.decode x = none) (bs : List α) :
    c.unstuff keep (c.esc :: x :: bs) = c.alone keep ++ c.unstuff keep (x :: bs) := by
  rw [Code.unstuff, if_pos rfl, h]

/-- What was stuffed is read back, with the reserved symbols marked. -/
theorem unstuff_stuff (xs bs : List α) : c.unstuff keep (c.stuff xs ++ bs) =
    (xs.map fun x => (x, (c.encode x).isSome)) ++ c.unstuff keep bs := by
  induction xs with
  | nil => rfl
  | cons x xs ih =>
    rw [Code.stuff, List.flatMap_cons, ← Code.stuff, List.append_assoc, List.map_cons,
      List.cons_append, ← ih]
    unfold Code.stuffOne
    cases hx : c.encode x with
    | none =>
      have hne : x ≠ c.esc := by
        rintro rfl
        have hesc := c.esc_reserved
        rw [hx] at hesc
        cases hesc
      exact unstuff_cons hne _
    | some y => exact unstuff_image (c.decode_encode x y hx) _

/-- The symbols are the next one and those behind it. -/
theorem unstuff_next (bs : List α) : c.unstuff keep bs =
    match c.next keep bs with
    | none => []
    | some (s, rest) => s :: c.unstuff keep rest := by
  match bs with
  | [] => rfl
  | [b] =>
    unfold Code.unstuff Code.next Code.alone
    by_cases hb : b = c.esc
    · cases keep <;> simp [hb]
    · simp [hb]
  | b :: x :: bs =>
    by_cases hb : b = c.esc
    · subst hb
      cases hx : c.decode x with
      | some y => rw [unstuff_image hx, Code.next, if_pos rfl, hx]
      | none =>
        rw [unstuff_alone hx, Code.next, if_pos rfl, hx]
        by_cases hk : keep = true
        · rw [Code.alone, if_pos hk, if_pos hk]
          rfl
        · rw [Code.alone, if_neg hk, if_neg hk]
          exact unstuff_next (x :: bs)
    · rw [unstuff_cons hb, Code.next, if_neg hb]

theorem next_cons {b : α} (h : b ≠ c.esc) (bs : List α) :
    c.next keep (b :: bs) = some ((b, false), bs) := by
  cases bs with
  | nil => rw [Code.next, if_neg fun hc => h hc.1]
  | cons x bs => rw [Code.next, if_neg h]

theorem next_length {bs rest : List α} {s : α × Bool} (h : c.next keep bs = some (s, rest)) :
    rest.length < bs.length := by
  match bs with
  | [] => cases h
  | [b] =>
    unfold Code.next at h
    split at h
    next => cases h
    next =>
      cases h
      exact Nat.zero_lt_one
  | b :: x :: bs =>
    rw [Code.next] at h
    simp only [List.length_cons]
    split at h
    next =>
      split at h
      next =>
        cases h
        omega
      next =>
        split at h
        next =>
          cases h
          exact Nat.lt_succ_self _
        next => exact Nat.lt_succ_of_lt (next_length h)
    next =>
      cases h
      exact Nat.lt_succ_self _

/-- Nothing is read of escapes that stand alone. -/
theorem unstuff_eq_nil (hesc : c.decode c.esc = none) (bs : List α) :
    c.unstuff false bs = [] ↔ ∀ b ∈ bs, b = c.esc := by
  match bs with
  | [] => exact iff_of_true rfl fun b hb => absurd hb List.not_mem_nil
  | [b] =>
    unfold Code.unstuff Code.alone
    by_cases hb : b = c.esc
    · simp [hb]
    · simp [hb]
  | b :: x :: bs =>
    rw [List.forall_mem_cons]
    by_cases hb : b = c.esc
    · subst hb
      cases hx : c.decode x with
      | some y =>
        rw [unstuff_image hx]
        apply iff_of_false (List.cons_ne_nil _ _)
        rintro ⟨-, hall⟩
        rw [hall x List.mem_cons_self, hesc] at hx
        cases hx
      | none =>
        rw [unstuff_alone hx, and_iff_right rfl, ← unstuff_eq_nil hesc (x :: bs)]
        rfl
    · rw [unstuff_cons hb]
      exact iff_of_false (List.cons_ne_nil _ _) fun h => hb h.1

/-- Fewer symbols are read where the escapes that stand alone are dropped. -/
theorem unstuff_length_le (bs : List α) :
    (c.unstuff false bs).length ≤ (c.unstuff true bs).length := by
  match bs with
  | [] => exact Nat.le_refl _
  | [b] =>
    unfold Code.unstuff Code.alone
    split
    next => exact Nat.zero_le _
    next => exact Nat.le_refl _
  | b :: x :: bs =>
    by_cases hb : b = c.esc
    · subst hb
      cases hx : c.decode x with
      | some y =>
        rw [unstuff_image hx, unstuff_image hx]
        exact Nat.succ_le_succ (unstuff_length_le bs)
      | none =>
        rw [unstuff_alone hx, unstuff_alone hx]
        exact Nat.le_succ_of_le (unstuff_length_le (x :: bs))
    · rw [unstuff_cons hb, unstuff_cons hb]
      exact Nat.succ_le_succ (unstuff_length_le (x :: bs))

end Unstuff

section Read

/-- What is read are the first symbols. -/
theorem read_eq_some {n : Nat} {bs rest : List α} {items : List (α × Bool)}
    (h : c.read keep n bs = some (items, rest)) : items.length = n ∧
      c.unstuff keep bs = items ++ c.unstuff keep rest ∧ n + rest.length ≤ bs.length := by
  induction n generalizing bs items with
  | zero =>
    cases h
    exact ⟨rfl, rfl, Nat.le_of_eq (Nat.zero_add _)⟩
  | succ n ih =>
    obtain ⟨⟨s, bs'⟩, hs, h⟩ := Option.bind_eq_some_iff.mp h
    obtain ⟨⟨items', bs''⟩, hr, h⟩ := Option.bind_eq_some_iff.mp h
    cases h
    obtain ⟨hlen, hitems, hle⟩ := ih hr
    have hlt := next_length hs
    refine ⟨congrArg Nat.succ hlen, ?_, by omega⟩
    rw [unstuff_next, hs]
    exact congrArg (List.cons s) hitems

theorem read_eq_none {n : Nat} {bs : List α} (h : c.read keep n bs = none) :
    (c.unstuff keep bs).length < n := by
  induction n generalizing bs with
  | zero => cases h
  | succ n ih =>
    rw [unstuff_next]
    rw [Code.read] at h
    cases hs : c.next keep bs with
    | none => exact Nat.succ_pos n
    | some r =>
      rw [hs, Option.bind_eq_bind, Option.bind_some] at h
      have hr : c.read keep n r.2 = none := by
        cases hr : c.read keep n r.2 with
        | none => rfl
        | some t =>
          dsimp only at h
          rw [hr] at h
          cases h
      exact Nat.succ_lt_succ (ih hr)

/-- A symbol that is no escape is the next one, whatever is done with those that stand alone. -/
theorem next_drop {bs rest : List α} {s : α × Bool} (h : c.next true bs = some (s, rest))
    (hs : s ≠ (c.esc, false)) : c.next false bs = some (s, rest) := by
  match bs with
  | [] => cases h
  | [b] =>
    rw [Code.next, if_neg fun hc => Bool.noConfusion hc.2] at h
    cases h
    have hb : b ≠ c.esc := fun hb => hs (by rw [hb])
    rw [Code.next, if_neg fun hc => hb hc.1]
  | b :: x :: bs =>
    rw [Code.next] at h ⊢
    split at h
    next hb =>
      rw [if_pos hb]
      split at h
      next hx => exact h
      next hx =>
        rw [if_pos rfl] at h
        cases h
        exact absurd (by rw [hb]) hs
    next hb => rw [if_neg hb, h]

/-- Symbols among which no escape stands alone are read either way. -/
theorem read_drop {n : Nat} {bs rest : List α} {items : List (α × Bool)}
    (h : c.read true n bs = some (items, rest)) (hesc : (c.esc, false) ∉ items) :
    c.read false n bs = some (items, rest) := by
  induction n generalizing bs items with
  | zero => exact h
  | succ n ih =>
    obtain ⟨⟨s, bs'⟩, hs, h⟩ := Option.bind_eq_some_iff.mp h
    obtain ⟨⟨items', bs''⟩, hr, h⟩ := Option.bind_eq_some_iff.mp h
    cases h
    have hne : s ≠ (c.esc, false) := fun he => hesc (he ▸ List.mem_cons_self)
    have hrest := ih hr fun hm => hesc (List.mem_cons_of_mem s hm)
    rw [Code.read, next_drop hs hne, Option.bind_eq_bind, Option.bind_some]
    dsimp only
    rw [hrest]
    rfl

theorem read_drop_none {n : Nat} {bs : List α} (h : c.read true n bs = none) :
    c.read false n bs = none := by
  have hlt := read_eq_none h
  have hle := unstuff_length_le (c := c) bs
  cases hr : c.read false n bs with
  | none => rfl
  | some r =>
    obtain ⟨items, rest⟩ := r
    obtain ⟨hlen, hitems, -⟩ := read_eq_some hr
    rw [hitems, List.length_append] at hle
    omega

end Read

end ByteStuffing
