import Mathlib.Data.Rat.Floor
import Mathlib.Tactic.Ring
import Mathlib.Tactic.FieldSimp
import Mathlib.Tactic.IntervalCases

/-! Numerals as text: how the conversions of `printf` write them and `strtol`, `strtoul` and
`strtod` read them, up to the first character that is not theirs. -/

namespace Numerals

section Write

/-- `%d` with zeros to the width, `%0kd`. -/
def decimal (k : Nat) (z : Int) : List Char :=
  if z < 0 then '-' :: (Nat.toDigits 10 z.natAbs).leftpad (k - 1) '0'
  else (Nat.toDigits 10 z.natAbs).leftpad k '0'

/-- `%0kx` -/
def hex (k n : Nat) : List Char := (Nat.toDigits 16 n).leftpad k '0'

end Write

section Read

/-- The value of a digit of base `b`; letters, of either case, count from ten on. -/
def digit (b : Nat) (c : Char) : Option Nat :=
  let n := c.toNat
  let d := if 48 ≤ n ∧ n ≤ 57 then n - 48
    else if 97 ≤ n ∧ n ≤ 122 then n - 87
    else if 65 ≤ n ∧ n ≤ 90 then n - 55
    else b
  if d < b then some d else none

/-- The digits at the head of a text, read on to `n`, and what is behind them. -/
def scan (b : Nat) : List Char → Nat → Nat × List Char
  | [], n => (n, [])
  | c :: cs, n =>
    match digit b c with
    | some d => scan b cs (b * n + d)
    | none => (n, c :: cs)

def isSpace (c : Char) : Bool := c.toNat = 32 ∨ (9 ≤ c.toNat ∧ c.toNat ≤ 13)

def sign : List Char → Bool × List Char
  | '-' :: cs => (true, cs)
  | '+' :: cs => (false, cs)
  | cs => (false, cs)

def hexPrefix : List Char → List Char
  | '0' :: x :: c :: cs =>
    if (x = 'x' ∨ x = 'X') ∧ (digit 16 c).isSome then c :: cs else '0' :: x :: c :: cs
  | cs => cs

def integer (b : Nat) (cs : List Char) : Bool × Nat :=
  let (neg, cs) := sign (cs.dropWhile isSpace)
  (neg, (scan b (if b = 16 then hexPrefix cs else cs) 0).1)

/-- The result is negated as a word, and the greatest word out of range. -/
def strtoul (b : Nat) (cs : List Char) : UInt32 :=
  let (neg, n) := integer b cs
  if 2 ^ 32 ≤ n then 0xFFFFFFFF else if neg then -UInt32.ofNat n else UInt32.ofNat n

/-- The result is the nearest of the range out of it. -/
def strtol (b : Nat) (cs : List Char) : Int :=
  let (neg, n) := integer b cs
  if neg then max (-n) (-2 ^ 31) else min n (2 ^ 31 - 1)

/-- What `strtoll` in base 0 reads off the prefix of the digits. -/
def base : List Char → Nat × List Char
  | '0' :: cs => if hexPrefix ('0' :: cs) = '0' :: cs then (8, '0' :: cs) else (16, hexPrefix ('0' :: cs))
  | cs => (10, cs)

/-- `strtoll` in base 0: the integer, the nearest of the range out of it, how many characters are taken
of the text, and whether `ERANGE` is set. -/
def strtoll (cs : List Char) : Int64 × Nat × Bool :=
  let (neg, ds) := sign (cs.dropWhile isSpace)
  let (b, ds) := base ds
  let (n, rest) := scan b ds 0
  if rest.length = ds.length then (0, 0, false)
  else
    let k := cs.length - rest.length
    if neg then if n ≤ 2 ^ 63 then (Int64.ofInt (-n), k, false) else (Int64.minValue, k, true)
    else if n < 2 ^ 63 then (Int64.ofInt n, k, false) else (Int64.maxValue, k, true)

def exponent : List Char → Int
  | [] => 0
  | c :: cs =>
    if c = 'e' ∨ c = 'E' then
      let (neg, ds) := sign cs
      if neg then -(scan 10 ds 0).1 else (scan 10 ds 0).1
    else 0

/-- Digits behind a point, read on to `i`, how many they are and what is behind them. -/
def fraction (i : Nat) : List Char → Nat × Nat × List Char
  | '.' :: ds => ((scan 10 ds i).1, ds.length - (scan 10 ds i).2.length, (scan 10 ds i).2)
  | cs => (i, 0, cs)

/-- Decimal numerals, taken exactly; infinities, NaNs and hexadecimal are left out. -/
def strtod (cs : List Char) : ℚ :=
  let (neg, cs) := sign (cs.dropWhile isSpace)
  let (i, cs) := scan 10 cs 0
  let (m, k, cs) := fraction i cs
  (if neg then -1 else 1) * (m / 10 ^ k) * 10 ^ exponent cs

end Read

variable {b : Nat}

theorem digit_digitChar {d : Nat} (hd : d < b) (hb : b ≤ 16) : digit b d.digitChar = some d := by
  have h16 : d < 16 := by omega
  interval_cases d <;> simp [digit, Nat.digitChar, hd]

theorem scan_digits (hb : 1 < b) (hb' : b ≤ 16) (n : Nat) (cs : List Char) (i : Nat) :
    scan b (Nat.toDigits b n ++ cs) i = scan b cs (b ^ (Nat.toDigits b n).length * i + n) := by
  induction n using Nat.strong_induction_on generalizing cs with
  | _ n ih =>
    by_cases hn : n < b
    · rw [Nat.toDigits_of_lt_base hn]
      simp [scan, digit_digitChar hn hb']
    · have hlt : n / b < n := Nat.div_lt_self (by omega) hb
      have hr : n % b < b := Nat.mod_lt _ (by omega)
      rw [Nat.toDigits_of_base_le hb (by omega), List.append_assoc, ih _ hlt]
      rw [List.singleton_append, scan, digit_digitChar hr hb', List.length_append, pow_add]
      refine congrArg (scan b cs) ?_
      have hdm := Nat.div_add_mod n b
      simp only [List.length_singleton, pow_one]
      calc b * (b ^ (Nat.toDigits b (n / b)).length * i + n / b) + n % b
          = b ^ (Nat.toDigits b (n / b)).length * b * i + (b * (n / b) + n % b) := by ring
        _ = b ^ (Nat.toDigits b (n / b)).length * b * i + n := by rw [hdm]

theorem scan_zeros (hb : 1 < b) (k : Nat) (cs : List Char) (i : Nat) :
    scan b (List.replicate k '0' ++ cs) i = scan b cs (b ^ k * i) := by
  have hzero : digit b '0' = some 0 := by
    have hpos : 0 < b := by omega
    simp [digit, hpos]
  induction k generalizing i with
  | zero => simp
  | succ k ih =>
    rw [List.replicate_succ, List.cons_append, scan, hzero]
    dsimp only
    rw [ih, pow_succ]
    congr 1
    ring

theorem scan_padded (hb : 1 < b) (hb' : b ≤ 16) (k n : Nat) (cs : List Char) (i : Nat) :
    scan b ((Nat.toDigits b n).leftpad k '0' ++ cs) i =
      scan b cs (b ^ ((Nat.toDigits b n).leftpad k '0').length * i + n) := by
  rw [List.leftpad, List.append_assoc, scan_zeros hb, scan_digits hb hb', List.length_append,
    List.length_replicate, pow_add]
  congr 1
  ring

theorem isSome_digit_padded (hb : 1 < b) (hb' : b ≤ 16) {k n : Nat} {c : Char}
    (hc : c ∈ (Nat.toDigits b n).leftpad k '0') : (digit b c).isSome := by
  have hdigits : ∀ n, ∀ c ∈ Nat.toDigits b n, (digit b c).isSome := by
    intro n
    induction n using Nat.strong_induction_on with
    | _ n ih =>
      intro c hc
      by_cases hn : n < b
      · rw [Nat.toDigits_of_lt_base hn, List.mem_singleton] at hc
        rw [hc, digit_digitChar hn hb']
        rfl
      · have hlt : n / b < n := Nat.div_lt_self (by omega) hb
        rw [Nat.toDigits_of_base_le hb (by omega), List.mem_append, List.mem_singleton] at hc
        obtain hc | rfl := hc
        · exact ih _ hlt c hc
        · rw [digit_digitChar (Nat.mod_lt _ (by omega)) hb']
          rfl
  rw [List.leftpad, List.mem_append] at hc
  obtain hc | hc := hc
  · have hzero := hdigits 0 '0'
    rw [Nat.toDigits_zero] at hzero
    rw [(List.mem_replicate.mp hc).2]
    exact hzero List.mem_cons_self
  · exact hdigits n c hc

theorem scan_stop {c : Char} (h : digit b c = none) (cs : List Char) (i : Nat) :
    scan b (c :: cs) i = (i, c :: cs) := by
  rw [scan, h]

theorem length_padded {k n : Nat} (hk : 0 < k) (hb : 1 < b) (hn : n < b ^ k) :
    ((Nat.toDigits b n).leftpad k '0').length = k := by
  have hle := (Nat.length_toDigits_le_iff hb hk).mpr hn
  rw [List.length_leftpad]
  omega

theorem isDigit_padded {k n : Nat} {c : Char} (hc : c ∈ (Nat.toDigits 10 n).leftpad k '0') :
    48 ≤ c.toNat ∧ c.toNat ≤ 57 := by
  rw [List.leftpad, List.mem_append] at hc
  obtain hc | hc := hc
  · rw [(List.mem_replicate.mp hc).2]
    decide
  · have hd := Nat.isDigit_of_mem_toDigits (by decide) (by decide) hc
    simpa [Char.isDigit, UInt32.le_iff_toNat_le] using hd

section Leading

variable (k n : Nat) (cs : List Char)

theorem sign_digit {c : Char} (h : 48 ≤ c.toNat ∧ c.toNat ≤ 57) :
    sign (c :: cs) = (false, c :: cs) ∧ (c :: cs).dropWhile isSpace = c :: cs := by
  have hspace : isSpace c = false := by
    simp only [isSpace, decide_eq_false_iff_not]
    omega
  have hminus : c ≠ '-' := by
    rintro rfl
    exact absurd h.1 (by decide)
  have hplus : c ≠ '+' := by
    rintro rfl
    exact absurd h.1 (by decide)
  constructor
  · unfold sign
    split
    next heq => exact absurd (List.cons.inj heq).1 hminus
    next heq => exact absurd (List.cons.inj heq).1 hplus
    next => rfl
  · rw [List.dropWhile_cons, hspace, if_neg Bool.false_ne_true]

theorem sign_padded :
    sign (((Nat.toDigits 10 n).leftpad k '0' ++ cs).dropWhile isSpace) =
      (false, (Nat.toDigits 10 n).leftpad k '0' ++ cs) := by
  have hne : (Nat.toDigits 10 n).leftpad k '0' ≠ [] := by simp [List.leftpad]
  obtain ⟨c, ds, hc⟩ := List.exists_cons_of_ne_nil hne
  have hmem : c ∈ (Nat.toDigits 10 n).leftpad k '0' := by
    rw [hc]
    exact List.mem_cons_self
  obtain ⟨hsign, hdrop⟩ := sign_digit (ds ++ cs) (isDigit_padded hmem)
  rw [hc, List.cons_append, hdrop, hsign]

theorem sign_minus : sign (('-' :: cs).dropWhile isSpace) = (true, cs) := rfl

end Leading

theorem integer_decimal (k : Nat) (z : Int) {cs : List Char} (h : ∀ i, (scan 10 cs i).1 = i) :
    integer 10 (decimal k z ++ cs) = (decide (z < 0), z.natAbs) := by
  have hscan : ∀ k, (scan 10 ((Nat.toDigits 10 z.natAbs).leftpad k '0' ++ cs) 0).1 = z.natAbs := by
    intro k
    rw [scan_padded (by decide) (by decide), h, Nat.mul_zero, Nat.zero_add]
  by_cases hz : z < 0
  · rw [integer, decimal, if_pos hz, List.cons_append, sign_minus]
    simp only [Nat.reduceEqDiff, if_false, hscan, hz, decide_true]
  · rw [integer, decimal, if_neg hz, sign_padded]
    simp only [Nat.reduceEqDiff, if_false, hscan, hz, decide_false]

theorem strtol_decimal (k : Nat) {z : Int} (hl : -2 ^ 31 ≤ z) (hu : z < 2 ^ 31) {cs : List Char}
    (h : ∀ i, (scan 10 cs i).1 = i) : strtol 10 (decimal k z ++ cs) = z := by
  rw [strtol, integer_decimal k z h]
  by_cases hz : z < 0
  · simp only [hz, decide_true, if_true]
    omega
  · simp only [hz, decide_false, Bool.false_eq_true, if_false]
    omega

/-- A word printed as a signed number is read back as the word. -/
theorem strtoul_decimal (k : Nat) (u : UInt32) : strtoul 10 (decimal k u.toInt32.toInt) = u := by
  have hd := @integer_decimal k u.toInt32.toInt [] fun i => rfl
  rw [List.append_nil] at hd
  have hu := u.toNat_lt
  have hz : u.toInt32.toInt = (u.toNat : Int).bmod (2 ^ 32) := BitVec.toInt_eq_toNat_bmod _
  rw [Int.bmod_def] at hz
  rw [strtoul, hd]
  apply UInt32.toNat_inj.mp
  by_cases hlt : u.toInt32.toInt < 0
  · have hn : ¬ 2 ^ 32 ≤ u.toInt32.toInt.natAbs := by omega
    simp only [hlt, decide_true, if_true, hn, if_false, UInt32.toNat_neg, UInt32.toNat_ofNat',
      UInt32.size]
    omega
  · have hn : ¬ 2 ^ 32 ≤ u.toInt32.toInt.natAbs := by omega
    simp only [hlt, decide_false, Bool.false_eq_true, hn, if_false, UInt32.toNat_ofNat']
    omega

theorem strtoul_hex (n : Nat) (hn : n < 2 ^ 32) :
    strtoul 16 ('0' :: 'x' :: hex 8 n) = UInt32.ofNat n := by
  have hlen : (hex 8 n).length = 8 := length_padded (by decide) (by decide) (by omega)
  have hscan := scan_padded (b := 16) (by decide) (by decide) 8 n [] 0
  rw [List.append_nil, Nat.mul_zero, Nat.zero_add, ← hex] at hscan
  obtain ⟨c, ds, hc⟩ := List.exists_cons_of_length_pos (by omega : 0 < (hex 8 n).length)
  have hdigit : (digit 16 c).isSome = true := by
    cases hd : digit 16 c with
    | some d => rfl
    | none =>
      have hz := congrArg (List.length ∘ Prod.snd) hscan
      rw [hc, scan_stop hd] at hz
      simp [scan] at hz
  have hint : integer 16 ('0' :: 'x' :: hex 8 n) = (false, n) := by
    have hp : hexPrefix ('0' :: 'x' :: hex 8 n) = hex 8 n := by
      rw [hc, hexPrefix, if_pos ⟨Or.inl rfl, hdigit⟩]
    change (false, (scan 16 (hexPrefix ('0' :: 'x' :: hex 8 n)) 0).1) = (false, n)
    rw [hp, hscan]
    rfl
  rw [strtoul, hint]
  simp only [Nat.not_le.mpr hn, Bool.false_eq_true, if_false]

/-- A point with digits on both sides, those in front after a minus sign or not. -/
theorem strtod_point (j k : Nat) (z : Int) (n : Nat) :
    strtod (decimal j z ++ '.' :: (Nat.toDigits 10 n).leftpad k '0') =
      (if z < 0 then -1 else 1) *
        ((10 ^ ((Nat.toDigits 10 n).leftpad k '0').length * z.natAbs + n : Nat) /
          10 ^ ((Nat.toDigits 10 n).leftpad k '0').length) := by
  have hstop : ∀ i, scan 10 ('.' :: (Nat.toDigits 10 n).leftpad k '0') i =
      (i, '.' :: (Nat.toDigits 10 n).leftpad k '0') := fun i => scan_stop rfl _ i
  have hscan : ∀ i, scan 10 ((Nat.toDigits 10 n).leftpad k '0') i =
      (10 ^ ((Nat.toDigits 10 n).leftpad k '0').length * i + n, []) := by
    intro i
    have hs := scan_padded (b := 10) (by decide) (by decide) k n [] i
    rwa [List.append_nil] at hs
  by_cases hz : z < 0
  · rw [strtod, decimal, if_pos hz, List.cons_append, sign_minus]
    simp only [scan_padded (b := 10) (by decide) (by decide), hstop, fraction, hscan, hz,
      if_true]
    simp [exponent]
  · rw [strtod, decimal, if_neg hz, sign_padded]
    simp only [scan_padded (b := 10) (by decide) (by decide), hstop, fraction, hscan, hz,
      if_false]
    simp [exponent]

end Numerals
