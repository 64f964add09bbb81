import EdgeNode.Lib.Intervals
import EdgeNode.Sys.Ticks

/-! The dates of the kernel: `_time_to_date` and `_time_from_date` over its tables. -/

namespace EdgeNode.Sys

open Intervals

section Tables

/-- `DATE_STRUCT`, of words of 16 bits. -/
structure DateStruct where
  year : Nat
  month : Nat
  day : Nat
  hour : Nat
  minute : Nat
  second : Nat
  millisec : Nat
deriving DecidableEq

def secsInDay : Nat := 86400

def secsInYear : Nat := secsInDay * 365

def maximumSecondsInTime : Nat := 4102444800

def clkFirstYear : Nat := 1970

def clkLastYear : Nat := 2239

def daysInMonth (leap : Bool) : List Nat :=
  if leap then [0, 31, 29, 31, 30, 31, 30, 31, 31, 30, 31, 30, 31]
  else [0, 31, 28, 31, 30, 31, 30, 31, 31, 30, 31, 30, 31]

def secsBeforeMonth (leap : Bool) : List Nat :=
  (if leap then [0, 31, 60, 91, 121, 152, 182, 213, 244, 274, 305, 335]
    else [0, 31, 59, 90, 120, 151, 181, 212, 243, 273, 304, 334]).map (· * secsInDay) ++
    [0xFFFFFFFF]

/-- The years and leap days of the entries of `_time_secs_before_year_internal`. -/
def yearEntries : List (Nat × Nat) := [
  (1970, 0), (1971, 0), (1972, 0), (1973, 1), (1974, 1), (1975, 1), (1976, 1), (1977, 2),
  (1978, 2), (1979, 2), (1980, 2), (1981, 3), (1982, 3), (1983, 3), (1984, 3), (1985, 4),
  (1986, 4), (1987, 4), (1988, 4), (1989, 5), (1990, 5), (1991, 5), (1992, 5), (1993, 6),
  (1994, 6), (1996, 6), (1996, 6), (1997, 7), (1998, 7), (1999, 7), (2000, 7), (2001, 8),
  (2002, 8), (2003, 8), (2004, 8), (2005, 9), (2006, 9), (2007, 9), (2008, 9), (2009, 10),
  (2010, 10), (2011, 10), (2012, 10), (2013, 11), (2014, 11), (2015, 11), (2016, 11), (2017, 12),
  (2018, 12), (2019, 12), (2020, 12), (2021, 13), (2022, 13), (2023, 13), (2024, 13), (2025, 14),
  (2026, 14), (2027, 14), (2028, 14), (2029, 15), (2030, 15), (2031, 15), (2032, 15), (2033, 16),
  (2034, 16), (2035, 16), (2036, 16), (2037, 17), (2038, 17), (2039, 17), (2040, 17), (2041, 18),
  (2042, 18), (2043, 18), (2044, 18), (2045, 19), (2046, 19), (2047, 19), (2048, 19), (2049, 20),
  (2050, 20), (2051, 20), (2052, 20), (2053, 21), (2054, 21), (2055, 21), (2056, 21), (2057, 22),
  (2058, 22), (2059, 22), (2060, 22), (2061, 23), (2062, 23), (2063, 23), (2064, 23), (2065, 24),
  (2066, 24), (2067, 24), (2068, 24), (2069, 25), (2070, 25), (2071, 25), (2072, 25), (2073, 26),
  (2074, 26), (2075, 26), (2076, 26), (2077, 27), (2078, 27), (2079, 27), (2080, 27), (2081, 28),
  (2082, 28), (2083, 28), (2084, 28), (2085, 29), (2086, 29), (2087, 29), (2088, 29), (2089, 30),
  (2090, 30), (2091, 30), (2092, 30), (2093, 31), (2094, 31), (2095, 31), (2096, 31), (2097, 32),
  (2098, 32), (2099, 32)]

def secsBeforeYear : List Nat :=
  yearEntries.map (fun e => (e.1 - clkFirstYear) * secsInYear + e.2 * secsInDay) ++ [0xFFFFFFFF]

end Tables

section Conversions

def checkIfLeap (year : Nat) : Bool :=
  if year % 100 = 0 then year % 400 = 0 else year % 4 = 0

def beforeYear (i : Nat) : Nat := secsBeforeYear.getD i 0

def beforeMonth (leap : Bool) (i : Nat) : Nat := (secsBeforeMonth leap).getD i 0

/-- `_time_to_date`. -/
def timeToDate (ts : TimeStruct) : Option DateStruct :=
  if ts.seconds.toNat > maximumSecondsInTime ∨ ts.milliseconds.toNat > 999 then none
  else
    let year := locate beforeYear ts.seconds.toNat 130 0
    let time := ts.seconds.toNat - beforeYear year
    let year := year + clkFirstYear
    let leap := checkIfLeap year
    let month := locate (beforeMonth leap) time 12 0 + 1
    let time := time - beforeMonth leap (month - 1)
    let day := time / secsInDay
    let time := time - day * secsInDay
    let hour := time / 3600
    let time := time - hour * 3600
    let minute := time / 60
    some ⟨year, month, day + 1, hour, minute, time - minute * 60, ts.milliseconds.toNat⟩

def carrySecond (date : DateStruct) : DateStruct :=
  if date.millisec ≥ 1000 then
    { date with
      second := (date.second + date.millisec / 1000) % 2 ^ 16
      millisec := date.millisec % 1000 }
  else date

def carryMinute (date : DateStruct) : DateStruct :=
  if date.second ≥ 60 then
    { date with
      minute := (date.minute + date.second / 60) % 2 ^ 16
      second := date.second % 60 }
  else date

def carryHour (date : DateStruct) : DateStruct :=
  if date.minute ≥ 60 then
    { date with
      hour := (date.hour + date.minute / 60) % 2 ^ 16
      minute := date.minute % 60 }
  else date

def carryDay (date : DateStruct) : DateStruct :=
  if date.hour ≥ 24 then
    { date with
      day := (date.day + date.hour / 24) % 2 ^ 16
      hour := date.hour % 24 }
  else date

def carryMonth (date : DateStruct) : DateStruct :=
  if date.month > 12 then
    { date with
      year := (date.year + date.month / 12) % 2 ^ 16
      month := date.month % 12 }
  else date

/-- The loop that takes the days of whole months off. -/
def settle : Nat → DateStruct → Option DateStruct
  | 0, _ => none
  | fuel + 1, date =>
    let days := (daysInMonth (checkIfLeap date.year)).getD date.month 0
    if date.day > days then
      settle fuel (carryMonth { date with day := date.day - days, month := date.month + 1 })
    else some date

/-- The entry before the one of the month, of which there is none before the first. -/
def monthEntry (leap : Bool) (month : Nat) : Option Nat :=
  if month = 0 then none else (secsBeforeMonth leap)[month - 1]?

/-- The seconds of a settled date, without a value where they read outside the tables. -/
def secsOfDate (date : DateStruct) : Option (Option TimeStruct) :=
  if date.year > clkLastYear then some none
  else do
    let year ← secsBeforeYear[date.year - clkFirstYear]?
    let month ← monthEntry (checkIfLeap date.year) date.month
    let time := year + month + (date.day - 1) * secsInDay + date.hour * 3600 + date.minute * 60 +
      date.second
    some (some ⟨UInt32.ofNat time, UInt32.ofNat date.millisec⟩)

/-- `_time_from_date`, without a time where it fails. -/
def timeFromDate (date : DateStruct) : Option (Option TimeStruct) :=
  let date := carryDay (carryHour (carryMinute (carrySecond date)))
  if date.day < 1 then some none
  else
    let date := carryMonth date
    let date := if date.year < clkFirstYear then { date with year := clkFirstYear } else date
    (settle (date.day + 2) date).bind secsOfDate

end Conversions

section Tables

theorem beforeYear_succ : ∀ i < 129, i ≠ 24 → i ≠ 25 → beforeYear (i + 1) =
    beforeYear i + (if checkIfLeap (i + clkFirstYear) then 366 else 365) * secsInDay := by
  decide +kernel

/-- The entry of 1995 is that of 1996. -/
theorem beforeYear_1995 : beforeYear 24 + 2 * secsInYear = beforeYear 25 ∧
    beforeYear 25 = beforeYear 26 := by decide

theorem beforeYear_last : beforeYear 129 + secsInYear = maximumSecondsInTime ∧
    beforeYear 130 = 2 ^ 32 - 1 := by decide

/-- The entries of 1996 and of the last year. -/
theorem beforeYear_entries : beforeYear 25 = 820454400 ∧ beforeYear 129 = 4070908800 := by
  decide

/-- The years up to 1994 end before 1995, and those behind it begin after it and end in the range. -/
theorem yearEnd_bounds : ∀ i < 130, i ≠ 25 →
    (i ≤ 24 ∧ beforeYear i + (if checkIfLeap (i + clkFirstYear) then 366 else 365) * secsInDay ≤
      beforeYear 24 + secsInYear) ∨
    (beforeYear 25 ≤ beforeYear i ∧ beforeYear i +
      (if checkIfLeap (i + clkFirstYear) then 366 else 365) * secsInDay ≤ maximumSecondsInTime) := by
  decide +kernel

theorem beforeMonth_succ : ∀ leap, ∀ i < 11, beforeMonth leap (i + 1) =
    beforeMonth leap i + (daysInMonth leap).getD (i + 1) 0 * secsInDay := by decide

theorem beforeMonth_last : ∀ leap, beforeMonth leap 0 = 0 ∧ beforeMonth leap 11 + 31 * secsInDay =
    (if leap then 366 else 365) * secsInDay ∧ beforeMonth leap 12 = 2 ^ 32 - 1 := by decide

theorem daysInMonth_range : ∀ leap, ∀ i < 12, 28 ≤ (daysInMonth leap).getD (i + 1) 0 ∧
    (daysInMonth leap).getD (i + 1) 0 ≤ 31 := by decide

theorem secsBeforeYear_lookup : ∀ i < 131, secsBeforeYear[i]? = some (beforeYear i) := by
  decide +kernel

theorem secsBeforeMonth_lookup : ∀ leap, ∀ i < 12,
    (secsBeforeMonth leap)[i]? = some (beforeMonth leap i) := by decide

end Tables

section Carry

theorem carrySecond_eq {date : DateStruct} (h : date.second + date.millisec / 1000 < 2 ^ 16) :
    carrySecond date = { date with
      second := date.second + date.millisec / 1000
      millisec := date.millisec % 1000 } := by
  unfold carrySecond
  split
  next => rw [Nat.mod_eq_of_lt h]
  next hlt =>
    have hlt' : date.millisec < 1000 := Nat.lt_of_not_le hlt
    rw [Nat.div_eq_of_lt hlt', Nat.mod_eq_of_lt hlt', Nat.add_zero]

theorem carryMinute_eq {date : DateStruct} (h : date.minute + date.second / 60 < 2 ^ 16) :
    carryMinute date = { date with
      minute := date.minute + date.second / 60
      second := date.second % 60 } := by
  unfold carryMinute
  split
  next => rw [Nat.mod_eq_of_lt h]
  next hlt =>
    have hlt' : date.second < 60 := Nat.lt_of_not_le hlt
    rw [Nat.div_eq_of_lt hlt', Nat.mod_eq_of_lt hlt', Nat.add_zero]

theorem carryHour_eq {date : DateStruct} (h : date.hour + date.minute / 60 < 2 ^ 16) :
    carryHour date = { date with
      hour := date.hour + date.minute / 60
      minute := date.minute % 60 } := by
  unfold carryHour
  split
  next => rw [Nat.mod_eq_of_lt h]
  next hlt =>
    have hlt' : date.minute < 60 := Nat.lt_of_not_le hlt
    rw [Nat.div_eq_of_lt hlt', Nat.mod_eq_of_lt hlt', Nat.add_zero]

theorem carryDay_eq {date : DateStruct} (h : date.day + date.hour / 24 < 2 ^ 16) :
    carryDay date = { date with
      day := date.day + date.hour / 24
      hour := date.hour % 24 } := by
  unfold carryDay
  split
  next => rw [Nat.mod_eq_of_lt h]
  next hlt =>
    have hlt' : date.hour < 24 := Nat.lt_of_not_le hlt
    rw [Nat.div_eq_of_lt hlt', Nat.mod_eq_of_lt hlt', Nat.add_zero]

/-- The fields from the day on in their ranges, with the seconds of what was not. -/
theorem carry_spec {date : DateStruct} (hday : date.day < 1000) (hhour : date.hour < 24)
    (hminute : date.minute < 60) (hsecond : date.second < 60) (hmillisec : date.millisec < 2 ^ 16) :
    ∃ d h m s, carryDay (carryHour (carryMinute (carrySecond date))) =
        ⟨date.year, date.month, d, h, m, s, date.millisec % 1000⟩ ∧
      h < 24 ∧ m < 60 ∧ s < 60 ∧ d * secsInDay + h * 3600 + m * 60 + s =
        date.day * secsInDay + date.hour * 3600 + date.minute * 60 + date.second +
          date.millisec / 1000 := by
  obtain ⟨year, month, day, hour, minute, second, millisec⟩ := date
  dsimp only at hday hhour hminute hsecond hmillisec
  have hs : second + millisec / 1000 < 2 ^ 16 := by omega
  have hm : minute + (second + millisec / 1000) / 60 < 2 ^ 16 := by omega
  have hh : hour + (minute + (second + millisec / 1000) / 60) / 60 < 2 ^ 16 := by omega
  have hd : day + (hour + (minute + (second + millisec / 1000) / 60) / 60) / 24 < 2 ^ 16 := by omega
  rw [carrySecond_eq hs, carryMinute_eq hm, carryHour_eq hh, carryDay_eq hd]
  refine ⟨_, _, _, _, rfl, ?_⟩
  dsimp only
  unfold secsInDay
  omega

end Carry

section Settle

theorem settle_stop {date : DateStruct} (fuel : Nat)
    (h : date.day ≤ (daysInMonth (checkIfLeap date.year)).getD date.month 0) :
    settle (fuel + 1) date = some date := if_neg (Nat.not_lt_of_le h)

theorem settle_next {date : DateStruct} (fuel : Nat)
    (h : (daysInMonth (checkIfLeap date.year)).getD date.month 0 < date.day) :
    settle (fuel + 1) date = settle fuel (carryMonth { date with
      day := date.day - (daysInMonth (checkIfLeap date.year)).getD date.month 0
      month := date.month + 1 }) := if_pos h

/-- The seconds that a date with its month in the tables stands for. -/
def dateSecs (date : DateStruct) : Nat :=
  beforeYear (date.year - clkFirstYear) + beforeMonth (checkIfLeap date.year) (date.month - 1) +
    (date.day - 1) * secsInDay + date.hour * 3600 + date.minute * 60 + date.second

/-- A date with its year and month in the tables. -/
structure Tabled (date : DateStruct) : Prop where
  year : clkFirstYear ≤ date.year ∧ date.year ≤ 2100
  month : 1 ≤ date.month ∧ date.month ≤ 12

theorem secsOfDate_eq {date : DateStruct} (h : Tabled date) : secsOfDate date =
    some (some ⟨UInt32.ofNat (dateSecs date), UInt32.ofNat date.millisec⟩) := by
  obtain ⟨⟨hfirst, hlast⟩, hmonth, hmonth'⟩ := h
  have hyear : ¬ date.year > clkLastYear := by
    unfold clkLastYear
    omega
  have hindex : date.year - clkFirstYear < 131 := by
    unfold clkFirstYear
    omega
  have hzero : ¬ date.month = 0 := by omega
  have hentry : monthEntry (checkIfLeap date.year) date.month =
      some (beforeMonth (checkIfLeap date.year) (date.month - 1)) := by
    rw [monthEntry, if_neg hzero, secsBeforeMonth_lookup _ _ (by omega)]
  unfold secsOfDate
  rw [if_neg hyear, secsBeforeYear_lookup _ hindex, hentry]
  rfl

theorem beforeMonth_le : ∀ leap, ∀ i < 12, beforeMonth leap i ≤ 335 * secsInDay := by decide

/-- The days of a date in its year are settled over the months of it. -/
theorem settle_within {fuel : Nat} {date : DateStruct} (hfuel : date.day < fuel) (h : Tabled date)
    (hday : 1 ≤ date.day) (hyear : beforeMonth (checkIfLeap date.year) (date.month - 1) +
      date.day * secsInDay ≤ (if checkIfLeap date.year then 366 else 365) * secsInDay) :
    ∃ d, settle fuel date = some d ∧ Tabled d ∧ dateSecs d = dateSecs date ∧
      d.millisec = date.millisec := by
  induction fuel generalizing date with
  | zero => exact absurd hfuel (Nat.not_lt_zero _)
  | succ fuel ih =>
    obtain ⟨hfirst, hlast⟩ := h.month
    have hrange := daysInMonth_range (checkIfLeap date.year) (date.month - 1) (by omega)
    rw [Nat.sub_add_cancel hfirst] at hrange
    by_cases hstop : date.day ≤ (daysInMonth (checkIfLeap date.year)).getD date.month 0
    · exact ⟨date, settle_stop fuel hstop, h, rfl, rfl⟩
    · have hmonth : date.month < 12 := by
        apply Nat.lt_of_le_of_ne hlast
        intro hdec
        obtain ⟨-, hsum, -⟩ := beforeMonth_last (checkIfLeap date.year)
        rw [← hsum, hdec, Nat.add_sub_cancel 11 1] at hyear
        have hdays : (daysInMonth (checkIfLeap date.year)).getD 12 0 = 31 := by
          cases checkIfLeap date.year <;> rfl
        rw [hdec, hdays] at hstop
        unfold secsInDay at hyear
        omega
      have hsucc := beforeMonth_succ (checkIfLeap date.year) (date.month - 1) (by omega)
      rw [Nat.sub_add_cancel hfirst] at hsucc
      have hkeep : ¬ date.month + 1 > 12 := by omega
      generalize hdim : (daysInMonth (checkIfLeap date.year)).getD date.month 0 = dim at *
      obtain ⟨d, hd, htabled, hsecs, hmillis⟩ :=
        @ih { date with day := date.day - dim, month := date.month + 1 }
        (by dsimp only; omega) ⟨h.year, by dsimp only; omega⟩ (by dsimp only; omega) (by
          dsimp only
          rw [Nat.add_sub_cancel, hsucc]
          unfold secsInDay at *
          omega)
      refine ⟨d, ?_, htabled, ?_, hmillis⟩
      · rw [settle_next fuel (by omega), carryMonth, hdim]
        dsimp only
        rw [if_neg hkeep]
        exact hd
      · rw [hsecs]
        unfold dateSecs
        dsimp only
        rw [Nat.add_sub_cancel, hsucc]
        unfold secsInDay
        omega

/-- Days behind the end of December are those of the next year. -/
theorem settle_next_year {fuel : Nat} {date : DateStruct} (hfuel : date.day < fuel)
    (hyear : clkFirstYear ≤ date.year ∧ date.year < 2100) (hmonth : date.month = 12)
    (hday : 31 < date.day) (hday' : date.day ≤ 396) :
    ∃ d, settle fuel date = some d ∧ Tabled d ∧ dateSecs d =
      beforeYear (date.year - clkFirstYear + 1) + (date.day - 32) * secsInDay + date.hour * 3600 +
        date.minute * 60 + date.second ∧ d.millisec = date.millisec := by
  obtain ⟨fuel, rfl⟩ := Nat.exists_eq_succ_of_ne_zero (Nat.ne_of_gt (Nat.zero_lt_of_lt hfuel))
  obtain ⟨hfirst, hlast⟩ := hyear
  have hdays : (daysInMonth (checkIfLeap date.year)).getD date.month 0 = 31 := by
    rw [hmonth]
    cases checkIfLeap date.year <;> rfl
  have hindex : date.year + 1 - clkFirstYear = date.year - clkFirstYear + 1 := by omega
  obtain ⟨hzero, -, -⟩ := beforeMonth_last (checkIfLeap (date.year + 1))
  have hlong : 365 ≤ if checkIfLeap (date.year + 1) = true then 366 else 365 := by
    split <;> omega
  obtain ⟨d, hd, htabled, hsecs, hmillis⟩ := @settle_within fuel
    { date with day := date.day - 31, month := 1, year := date.year + 1 }
    (by dsimp only; omega) ⟨by dsimp only; omega, by dsimp only; omega⟩ (by dsimp only; omega) (by
      dsimp only
      rw [Nat.sub_self, hzero, Nat.zero_add]
      apply Nat.mul_le_mul_right
      omega)
  refine ⟨d, ?_, htabled, ?_, hmillis⟩
  · have hcarry : (date.year + 13 / 12) % 2 ^ 16 = date.year + 1 := by
      unfold clkFirstYear at hfirst
      omega
    rw [settle_next fuel (by omega), carryMonth, hdays, hmonth]
    dsimp only
    rw [if_pos (by omega), hcarry]
    exact hd
  · rw [hsecs]
    unfold dateSecs
    dsimp only
    rw [hindex, Nat.sub_self, hzero, Nat.add_zero]
    have hsub : date.day - 31 - 1 = date.day - 32 := by omega
    rw [hsub]

/-- The time of a date whose year and month are in the tables. -/
theorem timeFromDate_eq {date : DateStruct} (h : Tabled date) (hday : 1 ≤ date.day)
    (hday' : date.day < 1000) (hhour : date.hour < 24) (hminute : date.minute < 60)
    (hsecond : date.second < 60) (hmillisec : date.millisec < 2 ^ 16) :
    ∃ d h m s, timeFromDate date =
        (settle (d + 2) ⟨date.year, date.month, d, h, m, s, date.millisec % 1000⟩).bind secsOfDate ∧
      h < 24 ∧ m < 60 ∧ s < 60 ∧ d * secsInDay + h * 3600 + m * 60 + s =
        date.day * secsInDay + date.hour * 3600 + date.minute * 60 + date.second +
          date.millisec / 1000 := by
  obtain ⟨d, hh, m, s, hcarry, hlt, hm, hs, hsum⟩ :=
    carry_spec hday' hhour hminute hsecond hmillisec
  have hd : ¬ d < 1 := by
    unfold secsInDay at hsum
    omega
  have hmonth : ¬ date.month > 12 := Nat.not_lt_of_le h.month.2
  have hyear : ¬ date.year < clkFirstYear := Nat.not_lt_of_le h.year.1
  refine ⟨d, hh, m, s, ?_, hlt, hm, hs, hsum⟩
  unfold timeFromDate
  rw [hcarry]
  dsimp only
  rw [if_neg hd, carryMonth, if_neg hmonth, if_neg hyear]

end Settle

section Dates

/-- The day is one of its month. -/
def InMonth (date : DateStruct) : Prop :=
  date.day ≤ (daysInMonth (checkIfLeap date.year)).getD date.month 0

/-- The dates that are read from a time. -/
structure Dated (t : TimeStruct) (date : DateStruct) : Prop where
  year : clkFirstYear ≤ date.year ∧ date.year < 2100 ∧ date.year ≠ 1995
  month : 1 ≤ date.month ∧ date.month ≤ 12
  day : 1 ≤ date.day
  hour : date.hour < 24
  minute : date.minute < 60
  second : date.second < 60
  millisec : date.millisec = t.milliseconds.toNat ∧ date.millisec < 1000
  secs : dateSecs date = t.seconds.toNat ∧ t.seconds.toNat ≤ maximumSecondsInTime
  within : beforeYear (date.year - clkFirstYear) ≤ t.seconds.toNat ∧
    t.seconds.toNat < beforeYear (date.year - clkFirstYear + 1)
  inMonth : date.month < 12 → InMonth date

theorem locate_year {s : Nat} (h : s ≤ maximumSecondsInTime) :
    locate beforeYear s 130 0 < 130 ∧ locate beforeYear s 130 0 ≠ 25 ∧
      beforeYear (locate beforeYear s 130 0) ≤ s ∧
      s < beforeYear (locate beforeYear s 130 0 + 1) := by
  have hfirst : beforeYear 0 ≤ s := Nat.zero_le s
  have hend : s < beforeYear (0 + 130) := by
    rw [Nat.zero_add, beforeYear_last.2]
    unfold maximumSecondsInTime at h
    omega
  obtain ⟨-, hlt, hbefore, hafter⟩ := locate_spec hfirst hend
  refine ⟨by omega, ?_, hbefore, hafter⟩
  intro htwin
  rw [htwin] at hbefore hafter
  have hsame : beforeYear 25 = beforeYear (25 + 1) := beforeYear_1995.2
  omega

theorem locate_month (leap : Bool) {s : Nat} (h : s < 2 ^ 32 - 1) :
    locate (beforeMonth leap) s 12 0 < 12 ∧ beforeMonth leap (locate (beforeMonth leap) s 12 0) ≤ s ∧
      s < beforeMonth leap (locate (beforeMonth leap) s 12 0 + 1) := by
  obtain ⟨hzero, -, hlast⟩ := beforeMonth_last leap
  have hfirst : beforeMonth leap 0 ≤ s := by
    rw [hzero]
    exact Nat.zero_le s
  have hend : s < beforeMonth leap (0 + 12) := by
    rw [Nat.zero_add, hlast]
    exact h
  obtain ⟨-, hlt, hin⟩ := locate_spec hfirst hend
  exact ⟨by omega, hin⟩

theorem timeToDate_dated {t : TimeStruct} {date : DateStruct} (h : timeToDate t = some date) :
    Dated t date := by
  unfold timeToDate at h
  split at h
  next => cases h
  next hrange =>
    rw [not_or, Nat.not_lt, Nat.not_lt] at hrange
    obtain ⟨hsecs, hmillis⟩ := hrange
    obtain ⟨hyear, htwin, hbefore, hafter⟩ := locate_year hsecs
    generalize locate beforeYear t.seconds.toNat 130 0 = y at *
    have hleft : t.seconds.toNat - beforeYear y < 2 ^ 32 - 1 := by
      unfold maximumSecondsInTime at hsecs
      omega
    obtain ⟨hmonth, hfirst, hnext⟩ := locate_month (checkIfLeap (y + clkFirstYear)) hleft
    have hinMonth := beforeMonth_succ (checkIfLeap (y + clkFirstYear))
      (locate (beforeMonth (checkIfLeap (y + clkFirstYear))) (t.seconds.toNat - beforeYear y) 12 0)
    cases h
    generalize locate (beforeMonth (checkIfLeap (y + clkFirstYear)))
      (t.seconds.toNat - beforeYear y) 12 0 = i at *
    have hindex : y + clkFirstYear - clkFirstYear = y := Nat.add_sub_cancel y clkFirstYear
    constructor
    · unfold clkFirstYear
      dsimp only
      omega
    · dsimp only
      omega
    · exact Nat.succ_pos _
    · dsimp only [Nat.add_sub_cancel]
      unfold secsInDay
      omega
    · dsimp only [Nat.add_sub_cancel]
      omega
    · dsimp only [Nat.add_sub_cancel]
      omega
    · exact ⟨rfl, Nat.lt_succ_of_le hmillis⟩
    · refine ⟨?_, hsecs⟩
      unfold dateSecs
      dsimp only
      rw [hindex, Nat.add_sub_cancel, Nat.add_sub_cancel]
      unfold secsInDay
      omega
    · dsimp only
      rw [hindex]
      exact ⟨hbefore, hafter⟩
    · intro hlt
      unfold InMonth
      dsimp only at hlt ⊢
      rw [hinMonth (by omega)] at hnext
      rw [Nat.add_sub_cancel]
      unfold secsInDay at hnext ⊢
      omega

variable {t : TimeStruct} {date : DateStruct}

theorem december (leap : Bool) : (daysInMonth leap).getD 12 0 = 31 := by
  cases leap with
  | false => rfl
  | true => rfl

/-- The years between 1994 and the last one, and those before, end where the next one begins. -/
theorem Dated.next_year (h : Dated t date) (h94 : date.year ≠ 1994) (h99 : date.year ≠ 2099) :
    beforeYear (date.year - clkFirstYear + 1) = beforeYear (date.year - clkFirstYear) +
      (beforeMonth (checkIfLeap date.year) 11 + 31 * secsInDay) := by
  obtain ⟨hfirst, hlast, htwin⟩ := h.year
  obtain ⟨-, hsum, -⟩ := beforeMonth_last (checkIfLeap date.year)
  have hsucc := beforeYear_succ (date.year - clkFirstYear) (by unfold clkFirstYear; omega)
    (by unfold clkFirstYear; omega) (by unfold clkFirstYear; omega)
  rw [Nat.sub_add_cancel hfirst] at hsucc
  rw [hsum]
  exact hsucc

/-- Behind 1994 comes the entry of 1996, and behind the last year the filler of the table: the seconds
from there on are no time of the year. -/
theorem Dated.next_year_ne (h : Dated t date) {r : Nat} (hr : r < 365 * secsInDay)
    (hyear : date.year = 1994 ∨ date.year = 2099 ∧ r < secsInDay) :
    (beforeYear (date.year - clkFirstYear + 1) + r) % 2 ^ 32 ≠ t.seconds.toNat := by
  obtain ⟨hbefore, hafter⟩ := h.within
  have hmax := h.secs.2
  unfold maximumSecondsInTime at hmax
  unfold secsInDay at hr hyear
  obtain h94 | ⟨h99, hr'⟩ := hyear
  · have hindex : date.year - clkFirstYear + 1 = 25 := by rw [h94]; rfl
    rw [hindex, beforeYear_entries.1] at hafter ⊢
    have hsmall : 820454400 + r < 2 ^ 32 := by omega
    rw [Nat.mod_eq_of_lt hsmall]
    omega
  · have hprev : date.year - clkFirstYear = 129 := by rw [h99]; rfl
    have hindex : date.year - clkFirstYear + 1 = 130 := by rw [h99]; rfl
    rw [hprev, beforeYear_entries.2] at hbefore
    rw [hindex, beforeYear_last.2]
    obtain rfl | hpos := Nat.eq_zero_or_pos r
    · have hfiller : (2 ^ 32 - 1 + 0) % 2 ^ 32 = 2 ^ 32 - 1 := by decide
      omega
    · have hwrap : 2 ^ 32 - 1 + r = (r - 1) + 2 ^ 32 := by omega
      rw [hwrap, Nat.add_mod_right, Nat.mod_eq_of_lt (by omega)]
      omega

/-- A day that is not one of its month is behind the end of the year that the table has too long or of
the last one. -/
theorem Dated.late (h : Dated t date) (hlate : ¬ InMonth date) : date.month = 12 ∧ 31 < date.day ∧
    (date.year = 1994 ∧ date.day ≤ 396 ∨ date.year = 2099 ∧ date.day = 32 ∧
      t.seconds.toNat = maximumSecondsInTime) := by
  have hmonth : date.month = 12 := by
    by_contra hne
    exact hlate (h.inMonth (Nat.lt_of_le_of_ne h.month.2 hne))
  have hday : 31 < date.day := by
    unfold InMonth at hlate
    rw [hmonth, december] at hlate
    exact Nat.lt_of_not_le hlate
  obtain ⟨-, hsum, -⟩ := beforeMonth_last (checkIfLeap date.year)
  obtain ⟨hfirst, hlast, htwin⟩ := h.year
  obtain ⟨hsecs, hmax⟩ := h.secs
  have hafter := h.within.2
  unfold dateSecs at hsecs
  rw [hmonth, Nat.add_sub_cancel 11 1] at hsecs
  refine ⟨hmonth, hday, ?_⟩
  by_cases h94 : date.year = 1994
  · left
    have hlong : beforeYear 24 + 2 * secsInYear = beforeYear (24 + 1) := beforeYear_1995.1
    have hplain : checkIfLeap 1994 = false := by decide
    have hindex : date.year - clkFirstYear = 24 := by rw [h94]; rfl
    rw [hindex] at hsecs hafter
    rw [h94, hplain, if_neg Bool.false_ne_true] at hsum
    rw [h94, hplain] at hsecs
    refine ⟨h94, ?_⟩
    unfold secsInYear secsInDay at *
    omega
  · by_cases h99 : date.year = 2099
    · right
      have hend := beforeYear_last.1
      have hplain : checkIfLeap 2099 = false := by decide
      have hindex : date.year - clkFirstYear = 129 := by rw [h99]; rfl
      rw [hindex] at hsecs
      rw [h99, hplain, if_neg Bool.false_ne_true] at hsum
      rw [h99, hplain] at hsecs
      refine ⟨h99, ?_⟩
      unfold secsInYear secsInDay at *
      omega
    · have hnext := h.next_year h94 h99
      unfold secsInDay at *
      omega

theorem Dated.tabled (h : Dated t date) : Tabled date :=
  ⟨⟨h.year.1, Nat.le_of_lt h.year.2.1⟩, h.month⟩

theorem InMonth.day_le (hday : InMonth date) (h : Dated t date) : date.day ≤ 31 := by
  have hfirst := h.month.1
  have hrange := daysInMonth_range (checkIfLeap date.year) (date.month - 1) (by have := h.month; omega)
  rw [Nat.sub_add_cancel hfirst] at hrange
  exact Nat.le_trans hday hrange.2

/-- A day that is not one of its month is read as another time. -/
theorem timeFromDate_late (h : Dated t date) (hlate : ¬ InMonth date) :
    timeFromDate date ≠ some (some t) := by
  obtain ⟨hmonth, hday, hcases⟩ := h.late hlate
  obtain ⟨hmillis, hlt⟩ := h.millisec
  have hday' : date.day ≤ 396 := by omega
  obtain ⟨d, hh, m, s, htime, hhour, hminute, hsecond, hsum⟩ := timeFromDate_eq h.tabled h.day
    (by omega) h.hour h.minute h.second (by omega)
  have hd : d = date.day := by
    have h1 := h.hour
    have h2 := h.minute
    have h3 := h.second
    unfold secsInDay at hsum
    omega
  obtain ⟨e, he, htabled, hsecs, -⟩ := @settle_next_year (d + 2)
    ⟨date.year, date.month, d, hh, m, s, date.millisec % 1000⟩ (by dsimp only; omega)
    ⟨h.year.1, h.year.2.1⟩ hmonth (by dsimp only; omega) (by dsimp only; omega)
  dsimp only at hsecs
  rw [Nat.add_assoc, Nat.add_assoc, Nat.add_assoc] at hsecs
  have hne : dateSecs e % 2 ^ 32 ≠ t.seconds.toNat := by
    rw [hsecs]
    apply h.next_year_ne
    · unfold secsInDay
      omega
    · obtain ⟨h94, -⟩ | ⟨h99, hlast, -⟩ := hcases
      · exact Or.inl h94
      · refine Or.inr ⟨h99, ?_⟩
        unfold secsInDay
        omega
  rw [htime, he, Option.bind_some, secsOfDate_eq htabled]
  intro heq
  apply hne
  rw [← congrArg TimeStruct.seconds (Option.some.inj (Option.some.inj heq))]
  exact UInt32.toNat_ofNat'.symm

/-- A day that is one of its month, or the one behind it, is in the year unless it is behind the end
of December. -/
theorem InMonth.within_year (hmonth : 1 ≤ date.month ∧ date.month ≤ 12) (hday : InMonth date) {d : Nat}
    (hd : d ≤ date.day + 1) (hdec : date.month = 12 → d ≤ 31) :
    beforeMonth (checkIfLeap date.year) (date.month - 1) + d * secsInDay ≤
      (if checkIfLeap date.year then 366 else 365) * secsInDay := by
  have hlong : 365 ≤ if checkIfLeap date.year = true then 366 else 365 := by
    split <;> omega
  by_cases hlast : date.month = 12
  · obtain ⟨-, hsum, -⟩ := beforeMonth_last (checkIfLeap date.year)
    have hd31 := hdec hlast
    rw [hlast, Nat.add_sub_cancel 11 1, ← hsum]
    unfold secsInDay
    omega
  · have hsucc := beforeMonth_succ (checkIfLeap date.year) (date.month - 1) (by omega)
    have hle := beforeMonth_le (checkIfLeap date.year) date.month (by omega)
    rw [Nat.sub_add_cancel hmonth.1] at hsucc
    unfold InMonth at hday
    unfold secsInDay at *
    omega

/-- On the last day of the year the seconds of the next one are those added, unless the table has that
year wrong. -/
theorem Dated.new_year (h : Dated t date) (hmonth : date.month = 12) (hday : date.day = 31)
    {r k : Nat} (hr : r < secsInDay) (hsum : secsInDay + r =
      date.hour * 3600 + date.minute * 60 + date.second + k) (hk : k < 100) :
    (beforeYear (date.year - clkFirstYear + 1) + r) % 2 ^ 32 = t.seconds.toNat + k ∨
      (beforeYear (date.year - clkFirstYear + 1) + r) % 2 ^ 32 ≠ t.seconds.toNat := by
  by_cases hwrong : date.year = 1994 ∨ date.year = 2099
  · apply Or.inr
    apply h.next_year_ne
    · unfold secsInDay at *
      omega
    · exact hwrong.imp_right fun h99 => ⟨h99, hr⟩
  · rw [not_or] at hwrong
    obtain ⟨hown, hmax⟩ := h.secs
    have hnext := h.next_year hwrong.1 hwrong.2
    unfold dateSecs at hown
    rw [hmonth, hday, Nat.add_sub_cancel 11 1] at hown
    unfold maximumSecondsInTime at hmax
    have hsame : beforeYear (date.year - clkFirstYear + 1) + r = t.seconds.toNat + k := by
      unfold secsInDay at *
      omega
    rw [hsame, Nat.mod_eq_of_lt (by omega)]
    exact Or.inl rfl

/-- A settled date is read as its seconds as a word. -/
theorem bind_secsOfDate {o : Option DateStruct} {e : DateStruct} (ho : o = some e) (he : Tabled e)
    (hmillis : e.millisec < 1000) : ∃ u, o.bind secsOfDate = some (some u) ∧
      u.milliseconds.toNat = e.millisec ∧ u.seconds.toNat = dateSecs e % 2 ^ 32 := by
  refine ⟨⟨UInt32.ofNat (dateSecs e), UInt32.ofNat e.millisec⟩, ?_, ?_, UInt32.toNat_ofNat'⟩
  · rw [ho, Option.bind_some, secsOfDate_eq he]
  · exact UInt32.toNat_ofNat_of_lt' (by unfold UInt32.size; omega)

/-- Where the day stays in the year, the seconds `k` in its fields are added. -/
theorem Dated.settle_same_year (h : Dated t date) (hday : InMonth date) {d hh m s k g : Nat}
    (hone : 1 ≤ d) (hd : d ≤ date.day + 1) (hdec : date.month = 12 → d ≤ 31)
    (hsum : d * secsInDay + hh * 3600 + m * 60 + s =
      date.day * secsInDay + date.hour * 3600 + date.minute * 60 + date.second + k) :
    ∃ e, settle (d + 2) ⟨date.year, date.month, d, hh, m, s, g⟩ = some e ∧ Tabled e ∧
      dateSecs e = t.seconds.toNat + k ∧ e.millisec = g := by
  obtain ⟨e, he, htabled, hsecs, hkept⟩ := @settle_within (d + 2)
    ⟨date.year, date.month, d, hh, m, s, g⟩ (by dsimp only; omega)
    ⟨h.tabled.year, h.tabled.month⟩ hone (hday.within_year h.month hd hdec)
  refine ⟨e, he, htabled, ?_, hkept⟩
  have hfirst := h.day
  rw [hsecs, ← h.secs.1]
  unfold dateSecs
  dsimp only
  unfold secsInDay at *
  omega

/-- The date with another number of milliseconds: their seconds are added, unless they lead into a
year that the table has wrong. -/
theorem timeFromDate_shift (h : Dated t date) (hday : InMonth date) {g : Nat} (hg : g < 2 ^ 16) :
    ∃ u, timeFromDate { date with millisec := g } = some (some u) ∧
      u.milliseconds.toNat = g % 1000 ∧ (u.seconds.toNat = t.seconds.toNat + g / 1000 ∨
        0 < g / 1000 ∧ u.seconds.toNat ≠ t.seconds.toNat) := by
  have hday31 := hday.day_le h
  have hone := h.day
  have hhour := h.hour
  have hminute := h.minute
  have hsecond := h.second
  have hmillis : g % 1000 < 1000 := Nat.mod_lt g (by decide)
  obtain ⟨d, hh, m, s, htime, hhour', hminute', hsecond', hsum⟩ :=
    @timeFromDate_eq { date with millisec := g } ⟨h.tabled.year, h.tabled.month⟩ h.day
      (by dsimp only; omega) h.hour h.minute h.second hg
  dsimp only at htime hsum
  have hd : date.day ≤ d ∧ d ≤ date.day + 1 := by
    unfold secsInDay at hsum
    omega
  by_cases hdec : date.month = 12 → d ≤ 31
  · have hmax := h.secs.2
    obtain ⟨e, he, htabled, hsecs, hkept⟩ :=
      h.settle_same_year hday (Nat.le_trans hone hd.1) hd.2 hdec hsum
    obtain ⟨u, hu, humillis, huseconds⟩ := bind_secsOfDate he htabled (hkept.symm ▸ hmillis)
    rw [hkept] at humillis
    unfold maximumSecondsInTime at hmax
    rw [hsecs, Nat.mod_eq_of_lt (by omega)] at huseconds
    exact ⟨u, htime.trans hu, humillis, Or.inl huseconds⟩
  · push Not at hdec
    obtain ⟨hmonth, hover⟩ := hdec
    have h32 : d = 32 ∧ date.day = 31 ∧ 0 < g / 1000 := by
      unfold secsInDay at hsum
      omega
    obtain ⟨rfl, h31, hadded⟩ := h32
    obtain ⟨e, he, htabled, hsecs, hkept⟩ := @settle_next_year (32 + 2)
      ⟨date.year, date.month, 32, hh, m, s, g % 1000⟩ (by dsimp only; omega)
      ⟨h.year.1, h.year.2.1⟩ hmonth (Nat.lt_succ_self 31) (by dsimp only; omega)
    obtain ⟨u, hu, humillis, huseconds⟩ := bind_secsOfDate he htabled (hkept.symm ▸ hmillis)
    rw [hkept] at humillis
    dsimp only at hsecs
    rw [Nat.sub_self, Nat.zero_mul, Nat.add_zero, Nat.add_assoc, Nat.add_assoc] at hsecs
    rw [h31] at hsum
    have hin : hh * 3600 + (m * 60 + s) < secsInDay := by
      unfold secsInDay
      omega
    have hnew : secsInDay + (hh * 3600 + (m * 60 + s)) =
        date.hour * 3600 + date.minute * 60 + date.second + g / 1000 := by
      unfold secsInDay at hsum ⊢
      omega
    refine ⟨u, htime.trans hu, humillis, ?_⟩
    rw [huseconds, hsecs]
    exact (h.new_year hmonth h31 hin hnew (by omega)).imp_right fun hne => ⟨hadded, hne⟩

end Dates

section Inversion

/-- The time is read back from its date. -/
def Inverts (t : TimeStruct) : Prop :=
  ∃ date, timeToDate t = some date ∧ timeFromDate date = some (some t)

variable {t : TimeStruct} {date : DateStruct}

theorem inverts_iff_inMonth (h : timeToDate t = some date) : Inverts t ↔ InMonth date := by
  have hdated := timeToDate_dated h
  constructor
  · rintro ⟨date', hdate', hback⟩
    rw [h] at hdate'
    cases hdate'
    by_contra hlate
    exact timeFromDate_late hdated hlate hback
  · intro hday
    obtain ⟨hmillis, hlt⟩ := hdated.millisec
    obtain ⟨u, hu, humillis, huseconds⟩ := timeFromDate_shift hdated hday (by omega : date.millisec < 2 ^ 16)
    have hzero : date.millisec / 1000 = 0 := Nat.div_eq_of_lt hlt
    rw [hzero] at huseconds
    rw [Nat.mod_eq_of_lt hlt, hmillis] at humillis
    have heq : u = t := by
      obtain hsame | ⟨hpos, -⟩ := huseconds
      · cases u
        cases t
        exact congrArg₂ TimeStruct.mk (UInt32.toNat_inj.mp hsame) (UInt32.toNat_inj.mp humillis)
      · exact absurd hpos (Nat.lt_irrefl 0)
    exact ⟨date, h, heq ▸ hu⟩

/-- A day of its month is before the end of its year. -/
theorem InMonth.before_end (hday : InMonth date) (h : Dated t date) :
    t.seconds.toNat < beforeYear (date.year - clkFirstYear) +
      (if checkIfLeap date.year then 366 else 365) * secsInDay := by
  have hin := hday.within_year h.month (Nat.le_succ _) fun _ => hday.day_le h
  have hone := h.day
  have hhour := h.hour
  have hminute := h.minute
  have hsecond := h.second
  rw [← h.secs.1]
  unfold dateSecs
  unfold secsInDay at *
  omega

/-- The other days stand for 1995 and the end of the last second. -/
theorem Dated.late_seconds (h : Dated t date) (hlate : ¬ InMonth date) :
    beforeYear 24 + secsInYear ≤ t.seconds.toNat ∧ t.seconds.toNat < beforeYear 25 ∨
      t.seconds.toNat = maximumSecondsInTime := by
  obtain ⟨hmonth, hday, ⟨h94, -⟩ | ⟨-, -, hmax⟩⟩ := h.late hlate
  · left
    have hindex : date.year - clkFirstYear = 24 := by rw [h94]; rfl
    have hplain : checkIfLeap 1994 = false := by decide
    have hnext : 24 + 1 = 25 := rfl
    have hown := h.secs.1
    have hafter := h.within.2
    obtain ⟨-, hdays, -⟩ := beforeMonth_last false
    rw [if_neg Bool.false_ne_true] at hdays
    rw [hindex, hnext] at hafter
    unfold dateSecs at hown
    rw [hindex, h94, hplain, hmonth, Nat.add_sub_cancel 11 1] at hown
    refine ⟨?_, hafter⟩
    unfold secsInYear secsInDay at *
    omega
  · exact Or.inr hmax

/-- The kernel reads every time back but those of 1995 and the one after its last second. -/
theorem inverts_iff (t : TimeStruct) : Inverts t ↔ t.milliseconds.toNat ≤ 999 ∧
    (t.seconds.toNat < beforeYear 24 + secsInYear ∨
      beforeYear 25 ≤ t.seconds.toNat ∧ t.seconds.toNat < maximumSecondsInTime) := by
  have hentry : beforeYear 24 + secsInYear < beforeYear 25 ∧
      beforeYear 25 < maximumSecondsInTime := by decide
  constructor
  · intro h
    obtain ⟨date, hdate, hback⟩ := h
    have hday := (inverts_iff_inMonth hdate).mp ⟨date, hdate, hback⟩
    have hdated := timeToDate_dated hdate
    obtain ⟨hmillis, hlt⟩ := hdated.millisec
    obtain ⟨hfirst, hlast, htwin⟩ := hdated.year
    have hbounds := yearEnd_bounds (date.year - clkFirstYear) (by unfold clkFirstYear; omega)
      (by unfold clkFirstYear; omega)
    rw [Nat.sub_add_cancel hfirst] at hbounds
    have hend := hday.before_end hdated
    have hbegin := hdated.within.1
    refine ⟨by omega, ?_⟩
    obtain ⟨-, hbefore⟩ | ⟨hafter, hrange⟩ := hbounds
    · exact Or.inl (Nat.lt_of_lt_of_le hend hbefore)
    · exact Or.inr ⟨Nat.le_trans hafter hbegin, Nat.lt_of_lt_of_le hend hrange⟩
  · rintro ⟨hmillis, hsecs⟩
    have hrange : ¬ (t.seconds.toNat > maximumSecondsInTime ∨ t.milliseconds.toNat > 999) := by
      omega
    obtain ⟨date, hdate⟩ : ∃ date, timeToDate t = some date := ⟨_, if_neg hrange⟩
    have hdated := timeToDate_dated hdate
    apply (inverts_iff_inMonth hdate).mpr
    by_contra hlate
    obtain ⟨hbefore, hafter⟩ | hmax := hdated.late_seconds hlate
    · omega
    · omega

end Inversion

end EdgeNode.Sys
