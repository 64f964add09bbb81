import EdgeNode.Json.Print
import EdgeNode.Values.RoundTrip

/-! The quantity of a measured value: its number in JSON against the one of its text. -/

namespace EdgeNode.Json

open Numerals JsonText Values

/-- The types whose text is the number of a quantity. -/
def measured : List ValueType :=
  [.ulong, .ppm, .temperature, .humidity, .voltage, .current, .pressure, .pwrKwh, .pwrKw, .ph, .mm]

/-- How many counts of a type make one of its unit. -/
def scale : ValueType → Nat
  | .temperature | .humidity | .ph | .mm => 100
  | .voltage | .current | .pressure | .pwrKwh | .pwrKw => 1000
  | _ => 1

/-- Both are numerals, and nearer than one of the last digit of the text. -/
def SameQuantity (v : Value) : Prop :=
  ∃ t text p q, createValue v = some t ∧ Values.toString v = some text ∧ NumberText (snprint t) p ∧
    NumberText text q ∧ |p - q| < (lastDigit v.xType v.xData : ℚ) / scale v.xType

def Consistent : ValueType → UInt32 → Prop
  | .temperature, u => 0 ≤ u.toInt32.toInt ∨ u.toInt32.toInt.tmod 100 = 0
  | .humidity, u | .ph, u => u.toNat < 2 ^ 31
  | .voltage, u | .current, u | .pressure, u | .pwrKwh, u | .pwrKw, u => u = 0
  | .mm, _ => False
  | _, _ => True

section Numbers

theorem numberText_printFloat_iff {z : Int} {p : ℚ} :
    NumberText (printFloat z) p ↔ (0 ≤ z ∨ z.tmod 100 = 0) ∧ p = z / 100 := by
  constructor
  · intro h
    have hz : 0 ≤ z ∨ z.tmod 100 = 0 := by
      by_contra hn
      rw [not_or, Int.not_le] at hn
      exact not_numberText_printFloat hn.1 hn.2 p h
    exact ⟨hz, h.unique (numberText_printFloat hz)⟩
  · rintro ⟨hz, rfl⟩
    exact numberText_printFloat hz

theorem numberText_printPoint {j k : Nat} {a b : UInt32} (ha : a.toNat < 2 ^ 31) (hk : 0 < k)
    (hj : max j 1 = max k 1) (hb : b.toNat < 10 ^ k) (hb' : b.toNat < 2 ^ 31) :
    NumberText (printPoint j a b) ((10 ^ k * a.toNat + b.toNat : Nat) / (10 ^ k : Nat)) := by
  have hn := numberText_point a.toNat j b.toNat
  rw [length_digits hk hb hj, if_neg (by omega), Int.natAbs_natCast, one_mul] at hn
  have hq : ((10 ^ k * a.toNat + b.toNat : Nat) : ℚ) / ((10 ^ k : Nat) : ℚ) =
      a.toNat + b.toNat / 10 ^ k := by
    push_cast
    field_simp
  rw [printPoint, printWord_eq j hb', printWord, toInt_eq_toNat ha, hq]
  exact hn

/-- Hundredths against a text in units of `1 / d`, without fractions. -/
theorem close_iff {a m l : Int} {d s : Nat} (hd : 0 < d) (hs : 0 < s) :
    |(a : ℚ) / 100 - m / d| < l / s ↔ |a * d * s - m * 100 * s| < l * (100 * d) := by
  have hd' : (0 : ℚ) < d := by exact_mod_cast hd
  have hs' : (0 : ℚ) < s := by exact_mod_cast hs
  have hsub : (a : ℚ) / 100 - m / d = (a * d * s - m * 100 * s) / (100 * d * s) := by
    field_simp
  rw [hsub, abs_div, abs_of_pos (by positivity : (0 : ℚ) < 100 * d * s), div_lt_div_iff₀
    (by positivity) hs']
  have hcast : |(a : ℚ) * d * s - m * 100 * s| * s < l * (100 * d * s) ↔
      |(a : ℚ) * d * s - m * 100 * s| < l * (100 * d) := by
    rw [← mul_assoc (l : ℚ)]
    exact mul_lt_mul_iff_left₀ hs'
  rw [hcast]
  exact_mod_cast Iff.rfl

end Numbers

section Types

theorem toInt_eq (u : UInt32) :
    u.toInt32.toInt = if u.toNat < 2 ^ 31 then (u.toNat : Int) else u.toNat - 2 ^ 32 := by
  have hu := u.toNat_lt
  rw [toInt_toInt32, Int.bmod_def]
  omega

theorem sameQuantity_of {v : Value} {t : Tree} {text : List Char} {q : ℚ}
    (ht : createValue v = some t) (htext : Values.toString v = some text) (hq : NumberText text q) :
    SameQuantity v ↔ ∃ p, NumberText (snprint t) p ∧
      |p - q| < (lastDigit v.xType v.xData : ℚ) / scale v.xType := by
  constructor
  · rintro ⟨t', text', p, q', ht', htext', hp, hq', h⟩
    obtain rfl : t = t' := Option.some.inj (ht.symm.trans ht')
    obtain rfl : text = text' := Option.some.inj (htext.symm.trans htext')
    obtain rfl := hq.unique hq'
    exact ⟨p, hp, h⟩
  · rintro ⟨p, hp, h⟩
    exact ⟨t, text, p, q, ht, htext, hp, hq, h⟩

theorem not_sameQuantity_invalid {v : Value} (h : v.bValid = false) : ¬ SameQuantity v := by
  rintro ⟨t, text, p, q, ht, htext, hp, hq, -⟩
  have hna : Values.toString v = some "N/A".toList := by simp [Values.toString, h]
  obtain rfl := Option.some.inj (htext.symm.trans hna)
  exact absurd (hq.chars 'N' (by simp)) (by simp [isNumberChar])

variable (c u : UInt32)

theorem sameQuantity_number (t : ValueType) (h : t = .ulong ∨ t = .ppm) :
    SameQuantity ⟨t, true, c, u⟩ := by
  have hn := numberText_decimal u.toInt32.toInt
  refine ⟨.number u.toInt32, printWord 0 u, _, _, ?_, ?_, hn, hn, ?_⟩
  · rcases h with rfl | rfl <;> rfl
  · rcases h with rfl | rfl <;> rfl
  · rcases h with rfl | rfl <;> simp [lastDigit, scale]

theorem not_sameQuantity_mm : ¬ SameQuantity ⟨.mm, true, c, u⟩ := by
  rintro ⟨t, text, p, q, ht, -⟩
  cases ht

/-- A `FLOAT` in hundredths against a text of a whole and `k` digits. -/
theorem sameQuantity_point {t : ValueType} {j k : Nat} {a b : UInt32}
    (ht : createValue ⟨t, true, c, u⟩ = some (.float u.toInt32))
    (htext : Values.toString ⟨t, true, c, u⟩ = some (printPoint j a b)) (hscale : 0 < scale t)
    (ha : a.toNat < 2 ^ 31) (hk : 0 < k) (hj : max j 1 = max k 1) (hb : b.toNat < 10 ^ k)
    (hb' : b.toNat < 2 ^ 31) :
    SameQuantity ⟨t, true, c, u⟩ ↔ (0 ≤ u.toInt32.toInt ∨ u.toInt32.toInt.tmod 100 = 0) ∧
      |u.toInt32.toInt * (10 ^ k : Nat) * scale t -
        (10 ^ k * a.toNat + b.toNat : Nat) * 100 * scale t| <
          lastDigit t u * (100 * (10 ^ k : Nat)) := by
  rw [sameQuantity_of ht htext (numberText_printPoint ha hk hj hb hb'), ← close_iff
    (Nat.pow_pos (by decide)) hscale]
  simp only [snprint, numberText_printFloat_iff]
  constructor
  · rintro ⟨p, ⟨hz, rfl⟩, h⟩
    exact ⟨hz, h⟩
  · rintro ⟨hz, h⟩
    exact ⟨_, ⟨hz, rfl⟩, h⟩

theorem sameQuantity_humidity_iff : SameQuantity ⟨.humidity, true, c, u⟩ ↔ u.toNat < 2 ^ 31 := by
  have hu := u.toNat_lt
  have hz := toInt_eq u
  rw [@sameQuantity_point c u .humidity 0 1 (u / 100) (u % 100 / 10) rfl rfl (by decide)
    (by simp; omega) (by decide) rfl (by simp; omega) (by simp; omega), abs_lt]
  simp [lastDigit, scale]
  omega

theorem sameQuantity_ph_iff : SameQuantity ⟨.ph, true, c, u⟩ ↔ u.toNat < 2 ^ 31 := by
  have hu := u.toNat_lt
  have hz := toInt_eq u
  rw [@sameQuantity_point c u .ph 2 2 (u / 100) (u % 100) rfl rfl (by decide)
    (by simp; omega) (by decide) rfl (by simp; omega) (by simp; omega), abs_lt]
  simp [lastDigit, scale]
  omega

/-- The text is in thousandths, the tree in hundredths. -/
theorem sameQuantity_voltage_iff (t : ValueType) (h : t = .voltage ∨ t = .current) :
    SameQuantity ⟨t, true, c, u⟩ ↔ u = 0 := by
  have hu := u.toNat_lt
  have hz := toInt_eq u
  have ht : createValue ⟨t, true, c, u⟩ = some (.float u.toInt32) := by rcases h with rfl | rfl <;> rfl
  have hs : scale t = 1000 := by rcases h with rfl | rfl <;> rfl
  have hl : lastDigit t u = if u < 1000 then 10 else 100 := by rcases h with rfl | rfl <;> rfl
  rw [← UInt32.toNat_inj]
  by_cases hlt : u < 1000
  · have htext : Values.toString ⟨t, true, c, u⟩ =
        some (printPoint 2 (u / 1000) (u % 1000 / 10)) := by
      rcases h with rfl | rfl <;> simp [Values.toString, hlt]
    have hn : u.toNat < 1000 := UInt32.lt_iff_toNat_lt.mp hlt
    rw [@sameQuantity_point c u t 2 2 (u / 1000) (u % 1000 / 10) ht htext (by omega)
      (by simp; omega) (by decide) rfl (by simp; omega) (by simp; omega), abs_lt, hl, hs, if_pos hlt]
    simp
    omega
  · have htext : Values.toString ⟨t, true, c, u⟩ =
        some (printPoint 0 (u / 1000) (u % 1000 / 100)) := by
      rcases h with rfl | rfl <;> simp [Values.toString, hlt]
    have hn : ¬ u.toNat < 1000 := fun hn => hlt (UInt32.lt_iff_toNat_lt.mpr hn)
    rw [@sameQuantity_point c u t 0 1 (u / 1000) (u % 1000 / 100) ht htext (by omega)
      (by simp; omega) (by decide) rfl (by simp; omega) (by simp; omega), abs_lt, hl, hs, if_neg hlt]
    simp
    omega

theorem sameQuantity_thousandths_iff (t : ValueType) (h : t = .pwrKw ∨ t = .pwrKwh ∨ t = .pressure) :
    SameQuantity ⟨t, true, c, u⟩ ↔ u = 0 := by
  have hu := u.toNat_lt
  have hz := toInt_eq u
  have ht : createValue ⟨t, true, c, u⟩ = some (.float u.toInt32) := by
    rcases h with rfl | rfl | rfl <;> rfl
  have hs : scale t = 1000 := by rcases h with rfl | rfl | rfl <;> rfl
  have hl : lastDigit t u = if u < 1000 then 1 else 10 := by
    rcases h with rfl | rfl | rfl <;> rfl
  have hprint : Values.toString ⟨t, true, c, u⟩ = some (printThousandths u) := by
    rcases h with rfl | rfl | rfl <;> rfl
  rw [← UInt32.toNat_inj]
  by_cases hlt : u < 1000
  · have htext : Values.toString ⟨t, true, c, u⟩ = some (printPoint 3 (u / 1000) (u % 1000)) := by
      rw [hprint, printThousandths, if_pos hlt]
    have hn : u.toNat < 1000 := UInt32.lt_iff_toNat_lt.mp hlt
    rw [@sameQuantity_point c u t 3 3 (u / 1000) (u % 1000) ht htext (by omega)
      (by simp; omega) (by decide) rfl (by simp; omega) (by simp; omega), abs_lt, hl, hs, if_pos hlt]
    simp
    omega
  · have htext : Values.toString ⟨t, true, c, u⟩ =
        some (printPoint 2 (u / 1000) (u % 1000 / 10)) := by
      rw [hprint, printThousandths, if_neg hlt]
    have hn : ¬ u.toNat < 1000 := fun hn => hlt (UInt32.lt_iff_toNat_lt.mpr hn)
    rw [@sameQuantity_point c u t 2 2 (u / 1000) (u % 1000 / 10) ht htext (by omega)
      (by simp; omega) (by decide) rfl (by simp; omega) (by simp; omega), abs_lt, hl, hs, if_neg hlt]
    simp
    omega

theorem numberText_temperature {n : Int} (h : n ≠ -2 ^ 31) :
    NumberText (decimal 0 (n.tdiv 100) ++ '.' :: decimal 0 (((cAbs n).tmod 100).tdiv 10))
      ((if n ≤ -100 then -(n.natAbs / 10 : Nat) else (n.natAbs / 10 : Nat) : Int) / (10 : Nat)) := by
  have hpart : ((cAbs n).tmod 100).tdiv 10 = ((n.natAbs % 100 / 10 : Nat) : Int) := by
    rw [cAbs, if_neg h]
    rfl
  have hdigits : decimal 0 ((n.natAbs % 100 / 10 : Nat) : Int) =
      (Nat.toDigits 10 (n.natAbs % 100 / 10)).leftpad 0 '0' := by
    rw [decimal, if_neg (by omega), Int.natAbs_natCast]
  have hn := numberText_point (n.tdiv 100) 0 (n.natAbs % 100 / 10)
  rw [← hdigits, ← hpart] at hn
  have hq := strtod_temperature h
  rw [strtod_numberText hn] at hq
  rw [hq] at hn
  have hsign : ((if n ≤ -100 then -(n.natAbs / 10 : Nat) else (n.natAbs / 10 : Nat) : Int) : ℚ) /
      (10 : Nat) = (if n ≤ -100 then -1 else 1) * ((n.natAbs / 10 : Nat) / (10 : Nat)) := by
    split_ifs
    · rw [Int.cast_neg, Int.cast_natCast, neg_div, neg_one_mul]
    · rw [Int.cast_natCast, one_mul]
  rw [hsign]
  exact hn

/-- Tenths of a temperature are cut towards zero, so its text is near enough when JSON has one. -/
theorem sameQuantity_temperature_iff : SameQuantity ⟨.temperature, true, c, u⟩ ↔
    0 ≤ u.toInt32.toInt ∨ u.toInt32.toInt.tmod 100 = 0 := by
  have ht : createValue ⟨.temperature, true, c, u⟩ = some (.float u.toInt32) := rfl
  constructor
  · rintro ⟨t, text, p, q, ht', -, hp, -⟩
    obtain rfl := Option.some.inj (ht.symm.trans ht')
    exact (numberText_printFloat_iff.mp hp).1
  · intro h
    have hmin : u.toInt32.toInt ≠ -2 ^ 31 := by
      intro hn
      rw [hn] at h
      exact absurd h (by decide)
    have hmod := Int.mul_tdiv_add_tmod u.toInt32.toInt 100
    refine (sameQuantity_of ht rfl (numberText_temperature hmin)).mpr
      ⟨_, numberText_printFloat_iff.mpr ⟨h, rfl⟩, ?_⟩
    refine (close_iff (by decide) (by dsimp only [scale]; decide)).mpr ?_
    rw [abs_lt]
    dsimp only [lastDigit, scale, Value.nValue]
    split_ifs <;> omega

end Types

/-- The two numbers of a measured value agree when its type and word are consistent, and only then. -/
theorem sameQuantity_iff (v : Value) (h : v.xType ∈ measured) :
    SameQuantity v ↔ v.bValid = true ∧ Consistent v.xType v.xData := by
  obtain ⟨t, bValid, c, u⟩ := v
  cases bValid with
  | false => exact iff_of_false (not_sameQuantity_invalid rfl) (by simp)
  | true =>
    simp only [true_and]
    cases t with
    | ulong => exact iff_of_true (sameQuantity_number c u _ (Or.inl rfl)) trivial
    | ppm => exact iff_of_true (sameQuantity_number c u _ (Or.inr rfl)) trivial
    | temperature => exact sameQuantity_temperature_iff c u
    | humidity => exact sameQuantity_humidity_iff c u
    | ph => exact sameQuantity_ph_iff c u
    | voltage => exact sameQuantity_voltage_iff c u _ (Or.inl rfl)
    | current => exact sameQuantity_voltage_iff c u _ (Or.inr rfl)
    | pwrKw => exact sameQuantity_thousandths_iff c u _ (Or.inl rfl)
    | pwrKwh => exact sameQuantity_thousandths_iff c u _ (Or.inr (Or.inl rfl))
    | pressure => exact sameQuantity_thousandths_iff c u _ (Or.inr (Or.inr rfl))
    | mm => exact iff_of_false (not_sameQuantity_mm c u) id
    | bool | dio | led | hex32 => exact absurd h (by simp [measured])

/-- Twelve and a half degrees, and the digit after that is cut from the text. -/
theorem sameQuantity_temperature_1257 : SameQuantity ⟨.temperature, true, 0, 1257⟩ := by
  refine (sameQuantity_iff ⟨.temperature, true, 0, 1257⟩ (by decide)).mpr ⟨rfl, ?_⟩
  exact Or.inl (by decide)

/-- 5 V is 50 V in JSON. -/
theorem voltage_not_sameQuantity : ¬ SameQuantity ⟨.voltage, true, 0, 5000⟩ := by
  rw [sameQuantity_voltage_iff 0 5000 .voltage (Or.inl rfl)]
  decide

end EdgeNode.Json
