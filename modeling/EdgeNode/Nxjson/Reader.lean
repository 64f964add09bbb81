import EdgeNode.Nxjson.Parser

/-! What the parser makes of a text that nothing is written into: the text is a list of bytes without
its terminator, and what is behind a value is the rest of the list. -/

namespace EdgeNode.Nxjson.Reader

section Strings

def hex4 : List UInt8 → Option (Nat × List UInt8)
  | a :: b :: c :: e :: t => do
    let h1 ← hexVal a
    let h2 ← hexVal b
    let h3 ← hexVal c
    let h4 ← hexVal e
    some (unit h1 h2 h3 h4, t)
  | _ => none

/-- The code point of an escape from behind its `u` on. -/
def codepoint (t : List UInt8) : Option (Nat × List UInt8) := do
  let (c, t) ← hex4 t
  if isHigh c then
    if t.headD 0 = '\\'.toUInt8 ∧ t.tail.headD 0 = 'u'.toUInt8 then
      let (c2, t) ← hex4 t.tail.tail
      if isLow c2 then some (joined c c2, t) else none
    else none
  else some (c, t)

def emit (bs : List UInt8) (r : Option (List UInt8 × List UInt8)) : Option (List UInt8 × List UInt8) :=
  r.map fun x => (bs ++ x.1, x.2)

theorem length_hex4 {t rest : List UInt8} {c : Nat} (h : hex4 t = some (c, rest)) :
    rest.length + 4 = t.length := by
  unfold hex4 at h
  split at h
  · simp only [Option.bind_eq_bind, Option.bind_eq_some_iff, Option.some.injEq, Prod.mk.injEq] at h
    obtain ⟨_, _, _, _, _, _, _, _, _, rfl⟩ := h
    rfl
  · cases h

theorem length_codepoint {t rest : List UInt8} {c : Nat} (h : codepoint t = some (c, rest)) :
    rest.length + 4 ≤ t.length := by
  rw [codepoint, Option.bind_eq_bind, Option.bind_eq_some_iff] at h
  obtain ⟨⟨c1, t1⟩, h1, h⟩ := h
  have hlen := length_hex4 h1
  dsimp only at h
  split at h
  · split at h
    · obtain ⟨⟨c2, t2⟩, h2, h⟩ := Option.bind_eq_some_iff.mp h
      have hlen2 := length_hex4 h2
      simp only [List.length_tail] at hlen2
      split at h
      · simp only [Option.some.injEq, Prod.mk.injEq] at h
        rw [← h.2]
        omega
      · cases h
    · cases h
  · simp only [Option.some.injEq, Prod.mk.injEq] at h
    rw [← h.2]
    omega

/-- The bytes of a string from behind its opening quote on. -/
def unescape (encoder : Bool) : List UInt8 → Option (List UInt8 × List UInt8)
  | [] => none
  | c :: t =>
    if c = '"'.toUInt8 then some ([], t)
    else if c = '\\'.toUInt8 then
      match escaped (t.headD 0) with
      | some b => emit [b] (unescape encoder t.tail)
      | none =>
        if t.headD 0 = 'u'.toUInt8 ∧ encoder then
          match _h : codepoint t.tail with
          | none => none
          | some (c, rest) =>
            match unicodeToUtf8 c with
            | none => none
            | some bs => emit bs (unescape encoder rest)
        else emit [c] (unescape encoder t)
    else emit [c] (unescape encoder t)
termination_by t => t.length
decreasing_by
  · simp only [List.length_tail, List.length_cons]
    omega
  · have := length_codepoint _h
    simp only [List.length_tail, List.length_cons] at this ⊢
    omega
  · simp
  · simp

theorem unescape_codepoint (t : List UInt8) :
    unescape true ('\\'.toUInt8 :: 'u'.toUInt8 :: t) = (codepoint t).bind fun x =>
      (unicodeToUtf8 x.1).bind fun bs => emit bs (unescape true x.2) := by
  rw [unescape, if_neg (by decide), if_pos rfl]
  have hesc : escaped (('u'.toUInt8 :: t).headD 0) = none := rfl
  rw [hesc]
  dsimp only
  rw [if_pos ⟨rfl, rfl⟩]
  split
  next hc =>
    rw [List.tail_cons] at hc
    rw [hc]
    rfl
  next c rest hc =>
    rw [List.tail_cons] at hc
    rw [hc]
    cases hbs : unicodeToUtf8 c <;> simp [hbs]

end Strings

section Comments

/-- What is behind the end of a block comment, with the character before. -/
def endOfComment : UInt8 → List UInt8 → Option (List UInt8)
  | _, [] => none
  | b, c :: t => if c = '/'.toUInt8 ∧ b = '*'.toUInt8 then some t else endOfComment c t

/-- A comment from behind its slash on. -/
def skipComment : List UInt8 → Option (List UInt8)
  | [] => none
  | c :: t =>
    if c = '/'.toUInt8 then
      if '\n'.toUInt8 ∈ t then some (t.dropWhile (· ≠ '\n'.toUInt8)).tail else none
    else if c = '*'.toUInt8 ∧ t ≠ [] then endOfComment (t.headD 0) t.tail
    else none

end Comments

/-- The loop of `parse_key`. -/
def key (encoder : Bool) : Nat → List UInt8 → Option (Option (Option (List UInt8) × List UInt8))
  | 0, _ => none
  | _ + 1, [] => some none
  | n + 1, c :: t =>
    if c = '"'.toUInt8 then
      match unescape encoder t with
      | none => some none
      | some (k, t) =>
        let t := t.dropWhile isWhitespace
        if t.headD 0 = ':'.toUInt8 then some (some (some k, t.tail)) else some none
    else if isWhitespace c ∨ c = ','.toUInt8 then key encoder n t
    else if c = '}'.toUInt8 then some (some (none, c :: t))
    else if c = '/'.toUInt8 then
      match skipComment t with
      | none => some none
      | some t => key encoder n t
    else some none

section Values

variable {δ : Type} (d : Doubles δ)

def chars (t : List UInt8) : List Char := t.map fun b => Char.ofNat b.toNat

def number (t : List UInt8) (erange : Bool) : Option (Value δ (List UInt8) × List UInt8) × Bool :=
  let (int_value, k, e) := Numerals.strtoll (chars t)
  let erange := erange || e
  if k = 0 ∨ erange then (none, erange)
  else if goesOn ((t.drop k).headD 0) then
    let (dbl_value, k, e) := d.strtod (chars t)
    let erange := erange || e
    if k = 0 ∨ erange then (none, erange)
    else (some (.double int_value dbl_value, t.drop k), erange)
  else (some (.integer int_value (d.ofInt int_value), t.drop k), erange)

def word (word : String) (value : Value δ (List UInt8)) (key : Option (List UInt8))
    (t : List UInt8) : Option (Option (Node δ (List UInt8)) × List UInt8) :=
  let w := word.toList.map Char.toUInt8
  if w <+: t then some (some (.mk key value []), t.drop w.length) else none

variable (encoder : Bool)

mutual

def value : Nat → Option (List UInt8) → List UInt8 → Bool →
    Option (Option (Option (Node δ (List UInt8)) × List UInt8) × Bool)
  | 0, _, _, _ => none
  | _ + 1, _, [], erange => some (none, erange)
  | n + 1, key, c :: t, erange =>
    if c = ' '.toUInt8 ∨ c = '\t'.toUInt8 ∨ c = '\n'.toUInt8 ∨ c = '\r'.toUInt8 ∨
        c = ','.toUInt8 then
      value n key t erange
    else if c = '{'.toUInt8 then
      (members n t erange).map fun r =>
        (r.1.map fun x => (some (.mk key .object x.1), x.2), r.2)
    else if c = '['.toUInt8 then
      (items n t erange).map fun r =>
        (r.1.map fun x => (some (.mk key .array x.1), x.2), r.2)
    else if c = ']'.toUInt8 then some (some (none, c :: t), erange)
    else if c = '"'.toUInt8 then
      some ((unescape encoder t).map fun x => (some (.mk key (.string x.1) []), x.2), erange)
    else if startsNumber c then
      let r := number d (c :: t) erange
      some (r.1.map fun x => (some (.mk key x.1 []), x.2), r.2)
    else if c = 't'.toUInt8 then some (word "true" (.bool 1) key (c :: t), erange)
    else if c = 'f'.toUInt8 then some (word "false" (.bool 0) key (c :: t), erange)
    else if c = 'n'.toUInt8 then some (word "null" .null key (c :: t), erange)
    else if c = '/'.toUInt8 then
      match skipComment t with
      | none => some (none, erange)
      | some t => value n key t erange
    else some (none, erange)

def members : Nat → List UInt8 → Bool →
    Option (Option (List (Node δ (List UInt8)) × List UInt8) × Bool)
  | 0, _, _ => none
  | n + 1, t, erange => do
    match ← key encoder n t with
    | none => some (none, erange)
    | some (newKey, t) =>
      if t.headD 0 = '}'.toUInt8 then some (some ([], t.tail), erange)
      else
        match ← value n newKey t erange with
        | (none, erange) => some (none, erange)
        | (some (js, t), erange) =>
          (members n t erange).map fun r => (r.1.map fun x => (js.toList ++ x.1, x.2), r.2)

def items : Nat → List UInt8 → Bool →
    Option (Option (List (Node δ (List UInt8)) × List UInt8) × Bool)
  | 0, _, _ => none
  | n + 1, t, erange => do
    match ← value n none t erange with
    | (none, erange) => some (none, erange)
    | (some (js, t), erange) =>
      if t.headD 0 = ']'.toUInt8 then some (some (js.toList, t.tail), erange)
      else (items n t erange).map fun r => (r.1.map fun x => (js.toList ++ x.1, x.2), r.2)

end

/-- A text read in `n` turns. -/
def parse (n : Nat) (t : List UInt8) (erange : Bool) :
    Option (Option (Node δ (List UInt8)) × Bool) :=
  (value d encoder n none t erange).map fun r => (r.1.bind Prod.fst, r.2)

end Values

section Turns

variable {δ : Type} {d : Doubles δ} {encoder : Bool}

/-- More turns change nothing. -/
theorem key_turns {n : Nat} {t : List UInt8} {r : Option (Option (List UInt8) × List UInt8)}
    (h : key encoder n t = some r) : key encoder (n + 1) t = some r := by
  induction n generalizing t with
  | zero => cases h
  | succ n ih =>
    cases t with
    | nil => exact h
    | cons c t =>
      rw [key] at h ⊢
      split_ifs at h ⊢
      · exact h
      · exact ih h
      · exact h
      · cases hs : skipComment t with
        | none =>
          rw [hs] at h
          exact h
        | some rest =>
          rw [hs] at h
          exact ih h
      · exact h

/-- The functions of the values in `n` turns. -/
def Turns (d : Doubles δ) (encoder : Bool) (n : Nat) : Prop :=
  (∀ k t e r, value d encoder n k t e = some r → value d encoder (n + 1) k t e = some r) ∧
    (∀ t e r, members d encoder n t e = some r → members d encoder (n + 1) t e = some r) ∧
      ∀ t e r, items d encoder n t e = some r → items d encoder (n + 1) t e = some r

theorem turns (n : Nat) : Turns d encoder n := by
  induction n with
  | zero =>
    refine ⟨?_, ?_, ?_⟩
    · intro k t e r h
      cases h
    · intro t e r h
      cases h
    · intro t e r h
      cases h
  | succ n ih =>
    obtain ⟨hv, hm, hi⟩ := ih
    refine ⟨?_, ?_, ?_⟩
    · intro k t e r h
      cases t with
      | nil => exact h
      | cons c t =>
        rw [value] at h ⊢
        by_cases hspace : c = ' '.toUInt8 ∨ c = '\t'.toUInt8 ∨ c = '\n'.toUInt8 ∨ c = '\r'.toUInt8 ∨
            c = ','.toUInt8
        · rw [if_pos hspace] at h ⊢
          exact hv k t e r h
        rw [if_neg hspace] at h ⊢
        by_cases hopen : c = '{'.toUInt8
        · rw [if_pos hopen] at h ⊢
          obtain ⟨x, hx, rfl⟩ := Option.map_eq_some_iff.mp h
          rw [hm t e x hx]
          rfl
        rw [if_neg hopen] at h ⊢
        by_cases hopen' : c = '['.toUInt8
        · rw [if_pos hopen'] at h ⊢
          obtain ⟨x, hx, rfl⟩ := Option.map_eq_some_iff.mp h
          rw [hi t e x hx]
          rfl
        rw [if_neg hopen'] at h ⊢
        by_cases hclose : c = ']'.toUInt8
        · rwa [if_pos hclose] at h ⊢
        rw [if_neg hclose] at h ⊢
        by_cases hquote : c = '"'.toUInt8
        · rwa [if_pos hquote] at h ⊢
        rw [if_neg hquote] at h ⊢
        by_cases hnumber : startsNumber c = true
        · rwa [if_pos hnumber] at h ⊢
        rw [if_neg hnumber] at h ⊢
        by_cases htrue : c = 't'.toUInt8
        · rwa [if_pos htrue] at h ⊢
        rw [if_neg htrue] at h ⊢
        by_cases hfalse : c = 'f'.toUInt8
        · rwa [if_pos hfalse] at h ⊢
        rw [if_neg hfalse] at h ⊢
        by_cases hnull : c = 'n'.toUInt8
        · rwa [if_pos hnull] at h ⊢
        rw [if_neg hnull] at h ⊢
        by_cases hslash : c = '/'.toUInt8
        · rw [if_pos hslash] at h ⊢
          cases hs : skipComment t with
          | none => rwa [hs] at h
          | some rest =>
            rw [hs] at h
            exact hv k rest e r h
        · rwa [if_neg hslash] at h ⊢
    · intro t e r h
      rw [members, Option.bind_eq_bind, Option.bind_eq_some_iff] at h
      obtain ⟨x, hk, h⟩ := h
      rw [members, key_turns hk, Option.bind_eq_bind, Option.bind_some]
      cases x with
      | none => exact h
      | some x =>
        obtain ⟨k, t⟩ := x
        dsimp only at h ⊢
        split_ifs at h ⊢
        · exact h
        · obtain ⟨x, hx, h⟩ := Option.bind_eq_some_iff.mp h
          rw [hv k t e x hx, Option.bind_eq_bind, Option.bind_some]
          obtain ⟨_ | ⟨js, t⟩, e⟩ := x
          · exact h
          · obtain ⟨x, hx, rfl⟩ := Option.map_eq_some_iff.mp h
            dsimp only
            rw [hm t e x hx]
            rfl
    · intro t e r h
      rw [items, Option.bind_eq_bind, Option.bind_eq_some_iff] at h
      obtain ⟨x, hx, h⟩ := h
      rw [items, hv none t e x hx, Option.bind_eq_bind, Option.bind_some]
      obtain ⟨_ | ⟨js, t⟩, e⟩ := x
      · exact h
      · dsimp only at h ⊢
        split_ifs at h ⊢
        · exact h
        · obtain ⟨x, hx, rfl⟩ := Option.map_eq_some_iff.mp h
          rw [hi t e x hx]
          rfl

theorem parse_more {n m : Nat} (hn : n ≤ m) {t : List UInt8} {e : Bool}
    {r : Option (Node δ (List UInt8)) × Bool} (h : parse d encoder n t e = some r) :
    parse d encoder m t e = some r := by
  induction m, hn using Nat.le_induction with
  | base => exact h
  | succ m _ ih =>
    obtain ⟨x, hx, rfl⟩ := Option.map_eq_some_iff.mp ih
    exact Option.map_eq_some_iff.mpr ⟨x, (turns m).1 none t e x hx, rfl⟩

end Turns

end EdgeNode.Nxjson.Reader
