import EdgeNode.Values.Text
import Mathlib.Tactic.Linarith
import Mathlib.Tactic.NormNum

/-! The values that `FTE_VALUE_set` reads back from the text of `FTE_VALUE_toString`. -/

namespace EdgeNode.Values

open Numerals

section Words

variable {u : UInt32}

theorem toInt_toInt32 (u : UInt32) : u.toInt32.toInt = (u.toNat : Int).bmod (2 ^ 32) :=
  BitVec.toInt_eq_toNat_bmod _

theorem toInt_eq_toNat (h : u.toNat < 2 ^ 31) : u.toInt32.toInt = u.toNat := by
  rw [toInt_toInt32, Int.bmod_def]
  omega

theorem toInt_neg_iff : u.toInt32.toInt < 0 ↔ 2 ^ 31 ≤ u.toNat := by
  have hu := u.toNat_lt
  rw [toInt_toInt32, Int.bmod_def]
  omega

theorem toInt_bounds (u : UInt32) : -2 ^ 31 ≤ u.toInt32.toInt ∧ u.toInt32.toInt < 2 ^ 31 :=
  ⟨u.toInt32.le_toInt, u.toInt32.toInt_lt⟩

end Words

/-- The number that the word of a type stands for; a truth value for the types with two. -/
def count : ValueType → UInt32 → Int
  | .temperature, u => u.toInt32.toInt
  | .bool, u | .dio, u => if u = 0 then 0 else 1
  | _, u => u.toNat

/-- What one of the last digit printed stands for, in the counts of the type. -/
def lastDigit : ValueType → UInt32 → Int
  | .temperature, _ | .humidity, _ => 10
  | .voltage, u | .current, u => if u < 1000 then 10 else 100
  | .pwrKw, u | .pwrKwh, u | .pressure, u => if u < 1000 then 1 else 10
  | _, _ => 1

/-- The same value up to the digits printed. -/
def Agrees (xType : ValueType) (w u : UInt32) : Prop :=
  |count xType w - count xType u| < lastDigit xType u

theorem agrees_iff {xType : ValueType} {w u : UInt32} : Agrees xType w u ↔
    count xType u < count xType w + lastDigit xType u ∧
      count xType w < count xType u + lastDigit xType u := by
  rw [Agrees, abs_lt]
  omega

/-- Any object of the type takes the text of the value and holds the same value then. -/
def RoundTrips (v : Value) : Prop :=
  ∃ text, toString v = some text ∧ ∀ p : Value, p.xType = v.xType →
    ∃ q, set p text = some (retOk, q) ∧ Agrees v.xType q.xData v.xData

/-- The stored words that survive the text of their type. -/
def Invertible : ValueType → UInt32 → Prop
  | .temperature, u => -10 < u.toInt32.toInt
  | .humidity, u => u.toNat < 10010
  | .ppm, u => u.toNat < 2 ^ 31
  | .pressure, u | .ph, u | .mm, u => u = 0
  | .led, u => u.toNat ≤ 2
  | .bool, _ => False
  | _, _ => True

section Read

/-- How a text is read: a word that is stored, none that is, or a conversion that is undefined. -/
def outcome (p : Value) : Option (Option UInt32) → Option (Ret × Value)
  | none => none
  | some none => some (refuse p)
  | some (some w) => some (accept p w)

theorem roundTrips_iff {v : Value} {text : List Char} {o : Option (Option UInt32)}
    (ht : toString v = some text) (ho : ∀ p, p.xType = v.xType → set p text = outcome p o) :
    RoundTrips v ↔ ∃ w, o = some (some w) ∧ Agrees v.xType w v.xData := by
  constructor
  · rintro ⟨text', ht', h⟩
    obtain rfl : text = text' := Option.some.inj (ht.symm.trans ht')
    obtain ⟨q, hq, ha⟩ := h v rfl
    rw [ho v rfl] at hq
    match o with
    | some (some w) =>
      refine ⟨w, rfl, ?_⟩
      have hw : accept v w = (retOk, q) := Option.some.inj hq
      rw [← (Prod.mk.inj hw).2] at ha
      exact ha
    | some none =>
      have hw : refuse v = (retOk, q) := Option.some.inj hq
      exact absurd (Prod.mk.inj hw).1 (by decide)
  · rintro ⟨w, rfl, ha⟩
    refine ⟨text, ht, fun p hp => ⟨_, ho p hp, ?_⟩⟩
    exact ha

theorem acceptInt_eq (p : Value) (n : Int) : some (acceptInt p n) =
    outcome p (some (if n < 0 then none else some (UInt32.ofNat n.toNat))) := by
  rw [acceptInt]
  split <;> rfl

theorem toUINT32_natCast_div {m c : Nat} (h : m / c < 2 ^ 32) :
    toUINT32 ((m : ℚ) / c) = some (UInt32.ofNat (m / c)) := by
  have hfloor : ⌊(m : ℚ) / c⌋₊ = m / c := Rat.natFloor_natCast_div_natCast m c
  have hnonneg : (0 : ℚ) ≤ m / c := by positivity
  have hlt : (m : ℚ) / c < 2 ^ 32 := by
    have hf := Nat.lt_floor_add_one ((m : ℚ) / c)
    have hle : ((m / c : Nat) : ℚ) + 1 ≤ 2 ^ 32 := by exact_mod_cast h
    rw [hfloor] at hf
    linarith
  rw [toUINT32, if_pos ⟨by linarith, hlt⟩, hfloor]

theorem toUINT32_none {x : ℚ} (h : x ≤ -1) : toUINT32 x = none := by
  rw [toUINT32, if_neg fun hx => by linarith [hx.1]]

end Read

section Print

theorem printWord_eq (k : Nat) {u : UInt32} (h : u.toNat < 2 ^ 31) :
    printWord k u = (Nat.toDigits 10 u.toNat).leftpad k '0' := by
  rw [printWord, decimal, toInt_eq_toNat h, if_neg (by omega), Int.natAbs_natCast]

theorem strtol_printWord (u : UInt32) : strtol 10 (printWord 0 u) = u.toInt32.toInt := by
  have hd := @strtol_decimal 0 _ (toInt_bounds u).1 (toInt_bounds u).2 [] fun i => rfl
  rwa [List.append_nil] at hd

theorem length_digits {k n : Nat} (hk : 0 < k) (hn : n < 10 ^ k) {j : Nat} (hj : max j 1 = max k 1) :
    ((Nat.toDigits 10 n).leftpad j '0').length = k := by
  have hle := (Nat.length_toDigits_le_iff (by decide : 1 < 10) hk).mpr hn
  have hpos := Nat.length_toDigits_pos (b := 10) (n := n)
  rw [List.length_leftpad]
  omega

/-- The text of a point reads as the digits without it over a power of ten. -/
theorem strtod_printPoint {j k : Nat} {a b : UInt32} (ha : a.toNat < 2 ^ 31) (hk : 0 < k)
    (hj : max j 1 = max k 1) (hb : b.toNat < 10 ^ k) (hb' : b.toNat < 2 ^ 31) :
    strtod (printPoint j a b) =
      ((10 ^ k * a.toNat + b.toNat : Nat) : ℚ) / ((10 ^ k : Nat) : ℚ) := by
  rw [printPoint, printWord_eq j hb', printWord, strtod_point, length_digits hk hb hj,
    toInt_eq_toNat ha, if_neg (by omega), Int.natAbs_natCast, one_mul]
  push_cast
  rfl

theorem toUINT32_printPoint {j k : Nat} {a b : UInt32} (ha : a.toNat < 2 ^ 31) (hk : 0 < k)
    (hj : max j 1 = max k 1) (hb : b.toNat < 10 ^ k) (hb' : b.toNat < 2 ^ 31) (c : Nat)
    (hc : (10 ^ k * a.toNat + b.toNat) * c / 10 ^ k < 2 ^ 32) :
    toUINT32 (strtod (printPoint j a b) * (c : ℚ)) =
      some (UInt32.ofNat ((10 ^ k * a.toNat + b.toNat) * c / 10 ^ k)) := by
  rw [strtod_printPoint ha hk hj hb hb', div_mul_eq_mul_div, ← Nat.cast_mul]
  exact toUINT32_natCast_div hc

end Print

section Types

variable (c u : UInt32)

theorem roundTrips_ulong : RoundTrips ⟨.ulong, true, c, u⟩ := by
  have ht : toString ⟨.ulong, true, c, u⟩ = some (printWord 0 u) := rfl
  have ho : ∀ p : Value, p.xType = .ulong → set p (printWord 0 u) = outcome p (some (some u)) := by
    intro p hp
    simp only [set, hp, printWord, strtoul_decimal]
    rfl
  exact (roundTrips_iff ht ho).mpr ⟨u, rfl, by simp [Agrees, lastDigit]⟩

theorem roundTrips_hex32 : RoundTrips ⟨.hex32, true, c, u⟩ := by
  have ht : toString ⟨.hex32, true, c, u⟩ = some ('0' :: 'x' :: hex 8 u.toNat) := rfl
  have ho : ∀ p : Value, p.xType = .hex32 →
      set p ('0' :: 'x' :: hex 8 u.toNat) = outcome p (some (some u)) := by
    intro p hp
    simp only [set, hp, strtoul_hex _ u.toNat_lt, UInt32.ofNat_toNat]
    rfl
  exact (roundTrips_iff ht ho).mpr ⟨u, rfl, by simp [Agrees, lastDigit]⟩

theorem roundTrips_bool : ¬ RoundTrips ⟨.bool, true, c, u⟩ := by
  rintro ⟨text, ht, -⟩
  cases ht

theorem roundTrips_dio : RoundTrips ⟨.dio, true, c, u⟩ := by
  by_cases hu : u = 0
  · have ht : toString ⟨.dio, true, c, u⟩ = some ['0'] := by simp [toString, hu]
    have ho : ∀ p : Value, p.xType = .dio → set p ['0'] = outcome p (some (some 0)) := by
      intro p hp
      simp only [set, hp]
      rfl
    exact (roundTrips_iff ht ho).mpr ⟨0, rfl, by simp [Agrees, count, lastDigit, hu]⟩
  · have ht : toString ⟨.dio, true, c, u⟩ = some ['1'] := by simp [toString, hu]
    have ho : ∀ p : Value, p.xType = .dio → set p ['1'] = outcome p (some (some 1)) := by
      intro p hp
      simp only [set, hp]
      rfl
    exact (roundTrips_iff ht ho).mpr ⟨1, rfl, by simp [Agrees, count, lastDigit, hu]⟩

/-- A type whose text is read as a number and scaled. -/
theorem roundTrips_scaled {v : Value} {text : List Char} {x : ℚ} {w : UInt32}
    (ht : toString v = some text)
    (hs : ∀ p : Value, p.xType = v.xType → set p text = (toUINT32 x).map (accept p))
    (hx : toUINT32 x = some w) : RoundTrips v ↔ Agrees v.xType w v.xData := by
  have ho : ∀ p : Value, p.xType = v.xType → set p text = outcome p (some (some w)) := by
    intro p hp
    rw [hs p hp, hx]
    rfl
  rw [roundTrips_iff ht ho]
  constructor
  · rintro ⟨w', hw, ha⟩
    cases hw
    exact ha
  · intro ha
    exact ⟨w, rfl, ha⟩

theorem roundTrips_voltage (t : ValueType) (h : t = .voltage ∨ t = .current) :
    RoundTrips ⟨t, true, c, u⟩ := by
  have hu := u.toNat_lt
  have hs : ∀ text, ∀ p : Value, p.xType = t →
      set p text = (toUINT32 (strtod text * (1000 : Nat))).map (accept p) := by
    intro text p hp
    rcases h with rfl | rfl <;> simp only [set, hp] <;> rfl
  have hc : ∀ w, count t w = w.toNat := by
    intro w
    rcases h with rfl | rfl <;> rfl
  have hl : lastDigit t u = if u < 1000 then 10 else 100 := by rcases h with rfl | rfl <;> rfl
  by_cases hlt : u < 1000
  · have ht : toString ⟨t, true, c, u⟩ = some (printPoint 2 (u / 1000) (u % 1000 / 10)) := by
      rcases h with rfl | rfl <;> simp [toString, hlt]
    have hn : u.toNat < 1000 := UInt32.lt_iff_toNat_lt.mp hlt
    have hx := @toUINT32_printPoint 2 2 (u / 1000) (u % 1000 / 10) (by simp; omega) (by decide)
      rfl (by simp; omega) (by simp; omega) 1000 (by simp; omega)
    rw [roundTrips_scaled ht (hs _) hx, agrees_iff, hc, hc, hl, if_pos hlt]
    simp
    omega
  · have ht : toString ⟨t, true, c, u⟩ = some (printPoint 0 (u / 1000) (u % 1000 / 100)) := by
      rcases h with rfl | rfl <;> simp [toString, hlt]
    have hx := @toUINT32_printPoint 0 1 (u / 1000) (u % 1000 / 100) (by simp; omega) (by decide)
      rfl (by simp; omega) (by simp; omega) 1000 (by simp; omega)
    rw [roundTrips_scaled ht (hs _) hx, agrees_iff, hc, hc, hl, if_neg hlt]
    simp
    omega

/-- Thousandths come back when they are read as such, in steps of which 1000 make one; in steps of
which 10 do, zero comes back. -/
theorem roundTrips_thousandths (t : ValueType) (h : t = .pwrKw ∨ t = .pwrKwh ∨ t = .pressure)
    (s : Nat) (hs : s = 1000 ∨ s = 10)
    (hset : ∀ text, ∀ p : Value, p.xType = t →
      set p text = (toUINT32 (strtod text * (s : ℚ))).map (accept p)) :
    RoundTrips ⟨t, true, c, u⟩ ↔ s = 1000 ∨ u = 0 := by
  have hu := u.toNat_lt
  have hzero : u = 0 ↔ u.toNat = 0 := UInt32.toNat_inj.symm
  have hc : ∀ w, count t w = w.toNat := by
    intro w
    rcases h with rfl | rfl | rfl <;> rfl
  have hl : lastDigit t u = if u < 1000 then 1 else 10 := by
    rcases h with rfl | rfl | rfl <;> rfl
  have htext : toString ⟨t, true, c, u⟩ = some (printThousandths u) := by
    rcases h with rfl | rfl | rfl <;> rfl
  by_cases hlt : u < 1000
  · have ht : toString ⟨t, true, c, u⟩ = some (printPoint 3 (u / 1000) (u % 1000)) := by
      rw [htext, printThousandths, if_pos hlt]
    have hn : u.toNat < 1000 := UInt32.lt_iff_toNat_lt.mp hlt
    have hx := @toUINT32_printPoint 3 3 (u / 1000) (u % 1000) (by simp; omega) (by decide)
      rfl (by simp; omega) (by simp; omega) s (by rcases hs with rfl | rfl <;> simp <;> omega)
    rw [roundTrips_scaled ht (hset _) hx, agrees_iff, hc, hc, hl, if_pos hlt, hzero]
    rcases hs with rfl | rfl <;> simp <;> omega
  · have ht : toString ⟨t, true, c, u⟩ = some (printPoint 2 (u / 1000) (u % 1000 / 10)) := by
      rw [htext, printThousandths, if_neg hlt]
    have hn : ¬ u.toNat < 1000 := fun hn => hlt (UInt32.lt_iff_toNat_lt.mpr hn)
    have hdigits : 10 ^ 2 * (u / 1000).toNat + (u % 1000 / 10).toNat = u.toNat / 10 := by
      simp
      omega
    have hw : u.toNat / 10 * s / 10 ^ 2 < 2 ^ 32 := by rcases hs with rfl | rfl <;> omega
    have hx := @toUINT32_printPoint 2 2 (u / 1000) (u % 1000 / 10) (by simp; omega) (by decide)
      rfl (by simp; omega) (by simp; omega) s (by rwa [hdigits])
    rw [hdigits] at hx
    rw [roundTrips_scaled ht (hset _) hx, agrees_iff, hc, hc, hl, if_neg hlt, hzero,
      UInt32.toNat_ofNat', Nat.mod_eq_of_lt hw]
    rcases hs with rfl | rfl <;> dsimp only <;> omega

theorem roundTrips_power (t : ValueType) (h : t = .pwrKw ∨ t = .pwrKwh) :
    RoundTrips ⟨t, true, c, u⟩ := by
  have hset : ∀ text, ∀ p : Value, p.xType = t →
      set p text = (toUINT32 (strtod text * ((1000 : Nat) : ℚ))).map (accept p) := by
    intro text p hp
    rcases h with rfl | rfl <;> simp only [set, hp] <;> rfl
  have ht : t = .pwrKw ∨ t = .pwrKwh ∨ t = .pressure := by tauto
  exact (roundTrips_thousandths c u t ht 1000 (Or.inl rfl) hset).mpr (Or.inl rfl)

theorem roundTrips_pressure_iff : RoundTrips ⟨.pressure, true, c, u⟩ ↔ u = 0 := by
  have hset : ∀ text, ∀ p : Value, p.xType = .pressure →
      set p text = (toUINT32 (strtod text * ((10 : Nat) : ℚ))).map (accept p) := by
    intro text p hp
    simp only [set, hp]
    rfl
  have hiff := roundTrips_thousandths c u .pressure (Or.inr (Or.inr rfl)) 10 (Or.inr rfl) hset
  rw [hiff]
  simp

theorem roundTrips_humidity_iff : RoundTrips ⟨.humidity, true, c, u⟩ ↔ u.toNat < 10010 := by
  have hu := u.toNat_lt
  have ht : toString ⟨.humidity, true, c, u⟩ = some (printPoint 0 (u / 100) (u % 100 / 10)) := rfl
  have hread := @strtod_printPoint 0 1 (u / 100) (u % 100 / 10) (by simp; omega) (by decide) rfl
    (by simp; omega) (by simp; omega)
  have hx := @toUINT32_printPoint 0 1 (u / 100) (u % 100 / 10) (by simp; omega) (by decide)
    rfl (by simp; omega) (by simp; omega) 100 (by simp; omega)
  have hnonneg : ¬ strtod (printPoint 0 (u / 100) (u % 100 / 10)) < 0 := by
    rw [hread]
    exact not_lt.mpr (by positivity)
  have hhigh : 100 < strtod (printPoint 0 (u / 100) (u % 100 / 10)) ↔ 10010 ≤ u.toNat := by
    rw [hread, lt_div_iff₀ (by positivity)]
    have hcast : ((100 : ℚ) * ((10 ^ 1 : Nat) : ℚ) <
        ((10 ^ 1 * (u / 100).toNat + (u % 100 / 10).toNat : Nat) : ℚ)) ↔
        100 * 10 ^ 1 < 10 ^ 1 * (u / 100).toNat + (u % 100 / 10).toNat := by
      exact_mod_cast Iff.rfl
    rw [hcast]
    simp
    omega
  have hc : ∀ p : Value, p.xType = .humidity →
      set p (printPoint 0 (u / 100) (u % 100 / 10)) = if 10010 ≤ u.toNat then some (refuse p)
        else (toUINT32 (strtod (printPoint 0 (u / 100) (u % 100 / 10)) * ((100 : Nat) : ℚ))).map
          (accept p) := by
    intro p hp
    simp only [set, hp, hnonneg, false_or, hhigh]
    rfl
  by_cases hlt : 10010 ≤ u.toNat
  · have ho : ∀ p : Value, p.xType = .humidity →
        set p (printPoint 0 (u / 100) (u % 100 / 10)) = outcome p (some none) := by
      intro p hp
      rw [hc p hp, if_pos hlt]
      rfl
    rw [roundTrips_iff ht ho]
    simp only [Option.some.injEq, reduceCtorEq, false_and, exists_false, false_iff]
    omega
  · have hs : ∀ p : Value, p.xType = .humidity → set p (printPoint 0 (u / 100) (u % 100 / 10)) =
        (toUINT32 (strtod (printPoint 0 (u / 100) (u % 100 / 10)) * ((100 : Nat) : ℚ))).map
          (accept p) := by
      intro p hp
      rw [hc p hp, if_neg hlt]
    rw [roundTrips_scaled ht hs hx, agrees_iff]
    simp [count, lastDigit]
    omega

/-- The types that are read as an integer. -/
theorem roundTrips_integer {t : ValueType} {text : List Char} {n : Int}
    (h : t = .ppm ∨ t = .ph ∨ t = .mm) (ht : toString ⟨t, true, c, u⟩ = some text)
    (hn : strtol 10 text = n) (hlt : n < 2 ^ 31) :
    RoundTrips ⟨t, true, c, u⟩ ↔ 0 ≤ n ∧ n = u.toNat := by
  have ho : ∀ p : Value, p.xType = t → set p text =
      outcome p (some (if n < 0 then none else some (UInt32.ofNat n.toNat))) := by
    intro p hp
    rcases h with rfl | rfl | rfl <;> simp only [set, hp, hn, acceptInt_eq]
  rw [roundTrips_iff ht ho]
  by_cases hneg : n < 0
  · simp only [hneg, if_true, Option.some.injEq, reduceCtorEq, false_and, exists_false, false_iff]
    omega
  · have hw : (UInt32.ofNat n.toNat).toNat = n := by
      rw [UInt32.toNat_ofNat']
      omega
    simp only [hneg, if_false, Option.some.injEq, exists_eq_left', agrees_iff]
    rcases h with rfl | rfl | rfl <;> simp only [count, lastDigit, hw] <;> omega

theorem roundTrips_ppm_iff : RoundTrips ⟨.ppm, true, c, u⟩ ↔ u.toNat < 2 ^ 31 := by
  have ht : toString ⟨.ppm, true, c, u⟩ = some (printWord 0 u) := rfl
  rw [roundTrips_integer c u (Or.inl rfl) ht (strtol_printWord u) (toInt_bounds u).2]
  constructor
  · rintro ⟨hpos, -⟩
    have hneg := @toInt_neg_iff u
    omega
  · intro hlt
    have hpos := toInt_eq_toNat hlt
    omega

theorem roundTrips_hundredths_iff (t : ValueType) (h : t = .ph ∨ t = .mm) :
    RoundTrips ⟨t, true, c, u⟩ ↔ u = 0 := by
  have hu := u.toNat_lt
  have hzero : u = 0 ↔ u.toNat = 0 := UInt32.toNat_inj.symm
  have ht : toString ⟨t, true, c, u⟩ = some (printPoint 2 (u / 100) (u % 100)) := by
    rcases h with rfl | rfl <;> rfl
  have hn : strtol 10 (printPoint 2 (u / 100) (u % 100)) = (u / 100).toInt32.toInt :=
    strtol_decimal 0 (toInt_bounds _).1 (toInt_bounds _).2 fun i => by rw [scan_stop rfl]
  have hpos : (u / 100).toInt32.toInt = (u / 100).toNat := toInt_eq_toNat (by simp; omega)
  have ht3 : t = .ppm ∨ t = .ph ∨ t = .mm := by tauto
  rw [roundTrips_integer c u ht3 ht hn (toInt_bounds _).2, hpos, hzero]
  simp
  omega

theorem toLower_decimal (k : Nat) (z : Int) : (decimal k z).map Char.toLower = decimal k z := by
  have hdigit : ∀ c : Char, 48 ≤ c.toNat ∧ c.toNat ≤ 57 → c.toLower = c := by
    intro c hc
    refine dif_neg ?_
    rintro ⟨h65, -⟩
    have hle : 65 ≤ c.toNat := UInt32.le_iff_toNat_le.mp h65
    omega
  have hpadded : ∀ j, ((Nat.toDigits 10 z.natAbs).leftpad j '0').map Char.toLower =
      (Nat.toDigits 10 z.natAbs).leftpad j '0' := by
    intro j
    rw [List.map_congr_left fun c hc => hdigit c (isDigit_padded hc), List.map_id']
  by_cases hz : z < 0
  · rw [decimal, if_pos hz, List.map_cons, hpadded]
    rfl
  · rw [decimal, if_neg hz, hpadded]

/-- A word that is printed as one of the texts is the number that this reads as. -/
theorem strcasecmp_printWord {t : String} (h : strcasecmp (printWord 0 u) t = true) :
    u.toInt32.toInt = strtol 10 (t.toList.map Char.toLower) := by
  have heq : printWord 0 u = t.toList.map Char.toLower := by
    simpa [strcasecmp, printWord, toLower_decimal] using h
  have hd := strtol_printWord u
  rw [heq] at hd
  exact hd.symm

theorem roundTrips_led_iff : RoundTrips ⟨.led, true, c, u⟩ ↔ u.toNat ≤ 2 := by
  have hknown : ∀ w : UInt32, ∀ text, toString ⟨.led, true, c, w⟩ = some text →
      (∀ p : Value, p.xType = .led → set p text = outcome p (some (some w))) →
        RoundTrips ⟨.led, true, c, w⟩ := by
    intro w text ht ho
    exact (roundTrips_iff ht ho).mpr ⟨w, rfl, by simp [Agrees, lastDigit]⟩
  by_cases hle : u.toNat ≤ 2
  · refine iff_of_true ?_ hle
    have hcases : u = 0 ∨ u = 1 ∨ u = 2 := by
      simp only [← UInt32.toNat_inj]
      simp
      omega
    rcases hcases with rfl | rfl | rfl
    · exact hknown 0 "off".toList rfl fun p hp => by simp only [set, hp]; rfl
    · exact hknown 1 "on".toList rfl fun p hp => by simp only [set, hp]; rfl
    · exact hknown 2 "blink".toList rfl fun p hp => by simp only [set, hp]; rfl
  · refine iff_of_false ?_ hle
    have ht : toString ⟨.led, true, c, u⟩ = some (printWord 0 u) := by
      simp only [toString]
      split
      · contradiction
      · split <;> first | rfl | omega
    have hne : ∀ t : String, 0 ≤ strtol 10 (t.toList.map Char.toLower) →
        strtol 10 (t.toList.map Char.toLower) ≤ 2 → strcasecmp (printWord 0 u) t = false := by
      intro t h0 h2
      by_contra hs
      have hz := strcasecmp_printWord u (by simpa using hs)
      have hneg := @toInt_neg_iff u
      have hpos := @toInt_eq_toNat u
      omega
    have ho : ∀ p : Value, p.xType = .led → set p (printWord 0 u) = outcome p (some none) := by
      intro p hp
      simp only [set, hp]
      rw [hne "on" (by decide) (by decide), hne "1" (by decide) (by decide),
        hne "off" (by decide) (by decide), hne "0" (by decide) (by decide),
        hne "blink" (by decide) (by decide), hne "2" (by decide) (by decide)]
      rfl
    rw [roundTrips_iff ht ho]
    simp

/-- The sign is printed with the whole degrees only, and a zero has none. -/
theorem strtod_temperature {n : Int} (h : n ≠ -2 ^ 31) :
    strtod (decimal 0 (n.tdiv 100) ++ '.' :: decimal 0 (((cAbs n).tmod 100).tdiv 10)) =
      (if n ≤ -100 then -1 else 1) * ((n.natAbs / 10 : Nat) / (10 : Nat)) := by
  have habs : (n.tdiv 100).natAbs = n.natAbs / 100 := Int.natAbs_tdiv n 100
  have hneg : n.tdiv 100 < 0 ↔ n ≤ -100 := by
    obtain ⟨m, rfl | rfl⟩ := n.eq_nat_or_neg
    · rw [Int.tdiv_eq_ediv_of_nonneg (by omega)]
      omega
    · rw [Int.neg_tdiv, Int.tdiv_eq_ediv_of_nonneg (by omega)]
      omega
  have hpart : ((cAbs n).tmod 100).tdiv 10 = ((n.natAbs % 100 / 10 : Nat) : Int) := by
    rw [cAbs, if_neg h]
    rfl
  have hdigits : decimal 0 ((n.natAbs % 100 / 10 : Nat) : Int) =
      (Nat.toDigits 10 (n.natAbs % 100 / 10)).leftpad 0 '0' := by
    rw [decimal, if_neg (by omega), Int.natAbs_natCast]
  have hlen : ((Nat.toDigits 10 (n.natAbs % 100 / 10)).leftpad 0 '0').length = 1 :=
    length_digits (by decide) (by omega) rfl
  have hwhole : 10 ^ 1 * (n.natAbs / 100) + n.natAbs % 100 / 10 = n.natAbs / 10 := by omega
  rw [hpart, hdigits, strtod_point, hlen, habs, hwhole]
  simp only [hneg, pow_one, Nat.cast_ofNat]

theorem roundTrips_temperature_iff :
    RoundTrips ⟨.temperature, true, c, u⟩ ↔ -10 < u.toInt32.toInt := by
  have hs : ∀ text, ∀ p : Value, p.xType = .temperature →
      set p text = (toUINT32 (strtod text * ((100 : Nat) : ℚ))).map (accept p) := by
    intro text p hp
    simp only [set, hp]
    rfl
  have hundefined : ∀ text, toString ⟨.temperature, true, c, u⟩ = some text →
      toUINT32 (strtod text * ((100 : Nat) : ℚ)) = none → ¬ RoundTrips ⟨.temperature, true, c, u⟩ := by
    intro text ht hx
    rw [roundTrips_iff (o := none) ht fun p hp => by rw [hs text p hp, hx]; rfl]
    simp
  by_cases hmin : u.toInt32.toInt = -2 ^ 31
  · have hu : u = 0x80000000 := by
      rw [← UInt32.toNat_inj]
      have hneg := @toInt_neg_iff u
      have hlt := u.toNat_lt
      rw [toInt_toInt32, Int.bmod_def] at hmin
      simp
      omega
    subst hu
    have hx : toUINT32 (strtod "-21474836.-4".toList * ((100 : Nat) : ℚ)) = none := by
      decide +kernel
    have ht : toString ⟨.temperature, true, c, 0x80000000⟩ = some "-21474836.-4".toList := by
      change toString ⟨.temperature, true, 0, 0x80000000⟩ = some "-21474836.-4".toList
      decide +kernel
    exact iff_of_false (hundefined _ ht hx) (by omega)
  · have ht : toString ⟨.temperature, true, c, u⟩ = some (decimal 0 (u.toInt32.toInt.tdiv 100) ++
        '.' :: decimal 0 (((cAbs u.toInt32.toInt).tmod 100).tdiv 10)) := rfl
    have hread := strtod_temperature hmin
    by_cases hneg : u.toInt32.toInt ≤ -100
    · refine iff_of_false (hundefined _ ht (toUINT32_none ?_)) (by omega)
      rw [hread, if_pos hneg]
      have hten : (10 : ℚ) ≤ (u.toInt32.toInt.natAbs / 10 : Nat) := by
        have hnat : 10 ≤ u.toInt32.toInt.natAbs / 10 := by omega
        exact_mod_cast hnat
      push_cast
      linarith
    · have hb := (toInt_bounds u).2
      have hx : toUINT32 (strtod (decimal 0 (u.toInt32.toInt.tdiv 100) ++
          '.' :: decimal 0 (((cAbs u.toInt32.toInt).tmod 100).tdiv 10)) * ((100 : Nat) : ℚ)) =
          some (UInt32.ofNat (u.toInt32.toInt.natAbs / 10 * 100 / 10)) := by
        rw [hread, if_neg hneg, one_mul, div_mul_eq_mul_div, ← Nat.cast_mul]
        exact toUINT32_natCast_div (by omega)
      have hw : (UInt32.ofNat (u.toInt32.toInt.natAbs / 10 * 100 / 10)).toNat =
          u.toInt32.toInt.natAbs / 10 * 100 / 10 := by
        rw [UInt32.toNat_ofNat']
        omega
      have hwInt := @toInt_eq_toNat (UInt32.ofNat (u.toInt32.toInt.natAbs / 10 * 100 / 10))
        (by rw [hw]; omega)
      rw [roundTrips_scaled ht (hs _) hx, agrees_iff]
      simp only [count, lastDigit, hwInt, hw]
      omega

end Types

/-- A value comes back from its text up to the digits printed. -/
theorem roundTrips_iff_invertible (xType : ValueType) (ulFailCount xData : UInt32) :
    RoundTrips ⟨xType, true, ulFailCount, xData⟩ ↔ Invertible xType xData := by
  cases xType with
  | ulong => exact iff_of_true (roundTrips_ulong _ _) trivial
  | bool => exact iff_of_false (roundTrips_bool _ _) id
  | temperature => exact roundTrips_temperature_iff _ _
  | humidity => exact roundTrips_humidity_iff _ _
  | ppm => exact roundTrips_ppm_iff _ _
  | dio => exact iff_of_true (roundTrips_dio _ _) trivial
  | voltage => exact iff_of_true (roundTrips_voltage _ _ _ (Or.inl rfl)) trivial
  | current => exact iff_of_true (roundTrips_voltage _ _ _ (Or.inr rfl)) trivial
  | pressure => exact roundTrips_pressure_iff _ _
  | led => exact roundTrips_led_iff _ _
  | pwrKwh => exact iff_of_true (roundTrips_power _ _ _ (Or.inr rfl)) trivial
  | pwrKw => exact iff_of_true (roundTrips_power _ _ _ (Or.inl rfl)) trivial
  | hex32 => exact iff_of_true (roundTrips_hex32 _ _) trivial
  | ph => exact roundTrips_hundredths_iff _ _ _ (Or.inl rfl)
  | mm => exact roundTrips_hundredths_iff _ _ _ (Or.inr rfl)

/-- Half a degree below zero is printed, and read back, as half a degree above. -/
theorem temperature_not_roundTrips : ¬ RoundTrips ⟨.temperature, true, 0, 0xFFFFFFCE⟩ := by
  rintro ⟨text, ht, h⟩
  obtain rfl : "0.5".toList = text := Option.some.inj ht
  obtain ⟨q, hq, ha⟩ := h ⟨.temperature, true, 0, 0⟩ rfl
  have hset : set ⟨.temperature, true, 0, 0⟩ "0.5".toList =
      some (retOk, ⟨.temperature, true, 0, 50⟩) := by decide +kernel
  rw [hset] at hq
  cases hq
  rw [agrees_iff] at ha
  revert ha
  decide

end EdgeNode.Values
