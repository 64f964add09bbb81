import EdgeNode.Lib.Numerals
import EdgeNode.Sys.Dates
import EdgeNode.Types

/-! `FTE_TIME_toStr` and `FTE_TIME_fromStr`: times as text. -/

namespace EdgeNode.Sys

open Numerals

section Text

/-- `%04d-%02d-%02d %02d:%02d:%02d` -/
def dateText (xDate : DateStruct) : List Char :=
  decimal 4 xDate.year ++ '-' :: (decimal 2 xDate.month ++ '-' :: (decimal 2 xDate.day ++
    ' ' :: (decimal 2 xDate.hour ++ ':' :: (decimal 2 xDate.minute ++
      ':' :: decimal 2 xDate.second))))

/-- The text that is printed; the date is what was in memory where the time has none. -/
def toStr (xDate : DateStruct) (pTime : TimeStruct) (nBuffLen : Nat) : List Char :=
  (dateText ((timeToDate pTime).getD xDate)).take (nBuffLen - 1)

/-- What is before the first `c`, where the text is cut, and what is behind it. -/
def cut (c : Char) : List Char → Option (List Char × List Char)
  | [] => none
  | x :: xs => if x = c then some ([], xs) else (cut c xs).map fun p => (x :: p.1, p.2)

/-- `atoi` into a word of 16 bits. -/
def atoi (s : List Char) : Nat := (strtol 10 s % 2 ^ 16).toNat

/-- The fields that are read from the text, over what was in memory. -/
def readDate (xDate : DateStruct) (pBuff : List Char) : Option DateStruct := do
  let (year, pStart) ← cut '-' pBuff
  let (month, pStart) ← cut '-' pStart
  let (day, pStart) ← cut ' ' pStart
  let (hour, pStart) ← cut ':' pStart
  let (minute, pStart) ← cut ':' pStart
  some
    { xDate with
      year := atoi year
      month := atoi month
      day := atoi day
      hour := atoi hour
      minute := atoi minute
      second := atoi pStart }

/-- `FTE_TIME_fromStr`: what it returns and the time it leaves, without a value where the date leads
out of the tables. -/
def fromStr (xDate : DateStruct) (pTime : TimeStruct) (pBuff : List Char) :
    Option (Ret × TimeStruct) :=
  match readDate xDate pBuff with
  | some xDate => (timeFromDate xDate).map fun time => (retOk, time.getD pTime)
  | none => some (retError, pTime)

end Text

section Reading

theorem cut_append {c : Char} {piece : List Char} (h : c ∉ piece) (rest : List Char) :
    cut c (piece ++ c :: rest) = some (piece, rest) := by
  induction piece with
  | nil => exact if_pos rfl
  | cons x piece ih =>
    rw [List.mem_cons, not_or] at h
    rw [List.cons_append, cut, if_neg fun hx => h.1 hx.symm, ih h.2]
    rfl

theorem not_mem_decimal {k n : Nat} {c : Char} (hc : ¬ (48 ≤ c.toNat ∧ c.toNat ≤ 57)) :
    c ∉ decimal k n := by
  intro hmem
  have hpos : ¬ (n : Int) < 0 := Int.not_lt.mpr (Int.natCast_nonneg n)
  rw [decimal, if_neg hpos] at hmem
  exact hc (isDigit_padded hmem)

theorem atoi_decimal (k : Nat) {n : Nat} (h : n < 2 ^ 16) : atoi (decimal k n) = n := by
  have hread : strtol 10 (decimal k n ++ []) = n := by
    apply strtol_decimal k (by omega) (by omega)
    intro i
    rfl
  rw [List.append_nil] at hread
  rw [atoi, hread]
  omega

/-- Every field of a date is read back but the milliseconds. -/
theorem readDate_dateText (xDate : DateStruct) {date : DateStruct} (hyear : date.year < 2 ^ 16)
    (hmonth : date.month < 2 ^ 16) (hday : date.day < 2 ^ 16) (hhour : date.hour < 2 ^ 16)
    (hminute : date.minute < 2 ^ 16) (hsecond : date.second < 2 ^ 16) :
    readDate xDate (dateText date) = some { date with millisec := xDate.millisec } := by
  have hdash : ∀ k n : Nat, '-' ∉ decimal k n := fun _ _ => not_mem_decimal (by decide)
  have hblank : ∀ k n : Nat, ' ' ∉ decimal k n := fun _ _ => not_mem_decimal (by decide)
  have hcolon : ∀ k n : Nat, ':' ∉ decimal k n := fun _ _ => not_mem_decimal (by decide)
  unfold readDate dateText
  simp only [cut_append (hdash _ _), cut_append (hblank _ _), cut_append (hcolon _ _),
    Option.bind_eq_bind, Option.bind_some, atoi_decimal _ hyear, atoi_decimal _ hmonth,
    atoi_decimal _ hday, atoi_decimal _ hhour, atoi_decimal _ hminute, atoi_decimal _ hsecond]

theorem length_decimal {k n : Nat} (hk : 0 < k) (h : n < 10 ^ k) : (decimal k n).length = k := by
  have hpos : ¬ (n : Int) < 0 := Int.not_lt.mpr (Int.natCast_nonneg n)
  rw [decimal, if_neg hpos]
  exact length_padded hk (by decide) h

theorem length_dateText {date : DateStruct} (hyear : date.year < 10 ^ 4) (hmonth : date.month < 10 ^ 2)
    (hday : date.day < 10 ^ 2) (hhour : date.hour < 10 ^ 2) (hminute : date.minute < 10 ^ 2)
    (hsecond : date.second < 10 ^ 2) : (dateText date).length = 19 := by
  have hfour := length_decimal (by decide) hyear
  have htwo : ∀ n : Nat, n < 10 ^ 2 → (decimal 2 n).length = 2 := fun n hn =>
    length_decimal (by decide) hn
  unfold dateText
  simp only [List.length_append, List.length_cons, hfour, htwo _ hmonth, htwo _ hday, htwo _ hhour,
    htwo _ hminute, htwo _ hsecond]

/-- The text of a time is read as its date with the milliseconds of the memory. -/
theorem fromStr_toStr {t : TimeStruct} {date : DateStruct} (hdate : timeToDate t = some date)
    (hday : InMonth date) {nBuffLen : Nat} (hlen : 20 ≤ nBuffLen) (xDate yDate : DateStruct)
    (pTime : TimeStruct) : fromStr yDate pTime (toStr xDate t nBuffLen) =
      (timeFromDate { date with millisec := yDate.millisec }).map fun time =>
        (retOk, time.getD pTime) := by
  have h := timeToDate_dated hdate
  have hyear := h.year
  have hmonth := h.month
  have hday31 := hday.day_le h
  have hhour := h.hour
  have hminute := h.minute
  have hsecond := h.second
  have htext : toStr xDate t nBuffLen = dateText date := by
    rw [toStr, hdate, Option.getD_some]
    apply List.take_of_length_le
    rw [length_dateText (by omega) (by omega) (by omega) (by omega) (by omega) (by omega)]
    omega
  have hread := @readDate_dateText yDate date (by omega) (by omega) (by omega) (by omega)
    (by omega) (by omega)
  rw [htext, fromStr, hread]

/-- A time that the kernel reads back from its date is read back from its text, to the second, exactly
if the milliseconds that are never set happen to be zero. -/
theorem roundTrip_iff {t : TimeStruct} (h : Inverts t) {nBuffLen : Nat} (hlen : 20 ≤ nBuffLen)
    (xDate yDate : DateStruct) (millisec : UInt16) (pTime : TimeStruct) :
    fromStr { yDate with millisec := millisec.toNat } pTime (toStr xDate t nBuffLen) =
      some (retOk, ⟨t.seconds, 0⟩) ↔ millisec = 0 := by
  obtain ⟨date, hdate, hback⟩ := h
  have hday := (inverts_iff_inMonth hdate).mp ⟨date, hdate, hback⟩
  obtain ⟨u, hu, hmillis, hseconds⟩ :=
    timeFromDate_shift (timeToDate_dated hdate) hday millisec.toNat_lt
  have hresult : fromStr { yDate with millisec := millisec.toNat } pTime (toStr xDate t nBuffLen) =
      some (retOk, u) := by
    rw [fromStr_toStr hdate hday hlen, hu]
    rfl
  rw [hresult]
  constructor
  · intro heq
    have hsame := congrArg Prod.snd (Option.some.inj heq)
    dsimp only at hsame
    rw [hsame] at hmillis hseconds
    apply UInt16.toNat_inj.mp
    have hzero : millisec.toNat % 1000 = 0 := hmillis.symm
    have hnone : millisec.toNat / 1000 = 0 := by
      dsimp only at hseconds
      omega
    rw [UInt16.toNat_zero]
    omega
  · rintro rfl
    rw [UInt16.toNat_zero] at hmillis hseconds
    obtain hsame | ⟨hpos, -⟩ := hseconds
    · obtain ⟨seconds, milliseconds⟩ := u
      have hs : seconds = t.seconds := UInt32.toNat_inj.mp hsame
      have hm : milliseconds = 0 := UInt32.toNat_inj.mp hmillis
      rw [hs, hm]
    · exact absurd hpos (Nat.lt_irrefl 0)

theorem inverts_billion : Inverts ⟨1000000000, 500⟩ :=
  ⟨⟨2001, 9, 9, 1, 46, 40, 500⟩, by decide +kernel, by decide +kernel⟩

theorem roundTrip_billion :
    fromStr ⟨0, 0, 0, 0, 0, 0, (0 : UInt16).toNat⟩ ⟨0, 0⟩
        (toStr ⟨0, 0, 0, 0, 0, 0, 0⟩ ⟨1000000000, 500⟩ 32) =
      some (retOk, ⟨1000000000, 0⟩) ↔ (0 : UInt16) = 0 :=
  roundTrip_iff inverts_billion (by decide) ⟨0, 0, 0, 0, 0, 0, 0⟩ ⟨0, 0, 0, 0, 0, 0, 0⟩ 0 ⟨0, 0⟩

/-- A word that was left in memory becomes the milliseconds of the time. -/
theorem stale_milliseconds : Inverts ⟨1000000000, 500⟩ ∧
    fromStr ⟨0, 0, 0, 0, 0, 0, 7⟩ ⟨0, 0⟩ (toStr ⟨0, 0, 0, 0, 0, 0, 0⟩ ⟨1000000000, 500⟩ 32) ≠
      some (retOk, ⟨1000000000, 0⟩) := ⟨inverts_billion, by decide +kernel⟩

end Reading

end EdgeNode.Sys
