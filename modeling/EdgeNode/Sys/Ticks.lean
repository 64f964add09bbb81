import Mathlib.Algebra.Group.Nat.Defs
import Mathlib.Tactic.Common

/-! The tick times of the kernel, and the milliseconds and seconds between two times. -/

namespace EdgeNode.Sys

/-- `BSP_ALARM_FREQUENCY`. -/
def ticksPerSecond : Nat := 200

/-- The core clock of 96 MHz over the alarm frequency. -/
def hwTicksPerTick : Nat := 480000

/-- `MQX_TICK_STRUCT`. -/
structure TickStruct where
  ticks : UInt64
  hwTicks : UInt32
deriving DecidableEq

/-- `TIME_STRUCT`. -/
structure TimeStruct where
  seconds : UInt32
  milliseconds : UInt32
deriving DecidableEq

def secondsToTicks (seconds : UInt32) : TickStruct :=
  ⟨UInt64.ofNat (seconds.toNat * ticksPerSecond), 0⟩

def msecsToTicks (msecs : UInt32) : TickStruct :=
  let tmp := msecs.toNat * ticksPerSecond
  ⟨UInt64.ofNat (tmp / 1000), UInt32.ofNat ((tmp % 1000 * hwTicksPerTick + 500) / 1000)⟩

def addTicks (a b : TickStruct) : TickStruct :=
  let hwtpt := UInt32.ofNat hwTicksPerTick
  if a.hwTicks ≥ hwtpt - b.hwTicks then ⟨a.ticks + b.ticks + 1, a.hwTicks + (b.hwTicks - hwtpt)⟩
  else ⟨a.ticks + b.ticks, a.hwTicks + b.hwTicks⟩

def subtractTicks (a b : TickStruct) : TickStruct :=
  if a.hwTicks < b.hwTicks then
    ⟨a.ticks - b.ticks - 1, a.hwTicks + UInt32.ofNat hwTicksPerTick - b.hwTicks⟩
  else ⟨a.ticks - b.ticks, a.hwTicks - b.hwTicks⟩

/-- Ticks in milliseconds, rounded, and whether these are more than a word holds. -/
def ticksToMilliseconds (t : TickStruct) : UInt32 × Bool :=
  let tmp := ((t.ticks.toNat * hwTicksPerTick + t.hwTicks.toNat) * 10000 / ticksPerSecond /
    hwTicksPerTick + 5) / 10
  (UInt32.ofNat tmp, 2 ^ 32 ≤ tmp)

def timeDiffMilliseconds (end_tick start_tick : TickStruct) : Int32 × Bool :=
  let (ms, overflow) := ticksToMilliseconds (subtractTicks end_tick start_tick)
  (ms.toInt32, overflow)

/-- The nearest tick; the last one of the counter is not left. -/
def nearestTick (t : TickStruct) : Nat :=
  if t.ticks.toNat ≠ 2 ^ 64 - 1 ∧ hwTicksPerTick / 2 < t.hwTicks.toNat then t.ticks.toNat + 1
  else t.ticks.toNat

/-- Ticks in seconds, cut off, and whether these are more than a word holds. -/
def ticksToSeconds (t : TickStruct) : UInt32 × Bool :=
  let tmp := nearestTick t / ticksPerSecond
  (UInt32.ofNat tmp, 2 ^ 32 ≤ tmp)

def timeDiffSeconds (end_tick start_tick : TickStruct) : Int32 × Bool :=
  let (sec, overflow) := ticksToSeconds (subtractTicks end_tick start_tick)
  (sec.toInt32, overflow)

def timeAddMsecToTicks (tick : TickStruct) (msecs : UInt32) : TickStruct :=
  if msecs ≠ 0 then addTicks tick (msecsToTicks msecs) else tick

def timeToTicks (time : TimeStruct) : TickStruct :=
  addTicks (secondsToTicks time.seconds) (msecsToTicks time.milliseconds)

/-- `FTE_TIME_diffMilliseconds`. -/
def diffMilliseconds (pTime1 pTime2 : TimeStruct) : Int32 :=
  let (nDiffTime, bOverflow) := timeDiffMilliseconds (timeToTicks pTime1) (timeToTicks pTime2)
  if bOverflow then (timeDiffMilliseconds (timeToTicks pTime2) (timeToTicks pTime1)).1 else nDiffTime

/-- `FTE_TIME_diff`. -/
def diffSeconds (pTime1 pTime2 : TimeStruct) : Int32 :=
  let (nDiffTime, bOverflow) := timeDiffSeconds (timeToTicks pTime1) (timeToTicks pTime2)
  if bOverflow then (timeDiffSeconds (timeToTicks pTime2) (timeToTicks pTime1)).1 else nDiffTime

section Counts

/-- A time in hardware ticks, of which a millisecond has 96000. -/
def TickStruct.count (t : TickStruct) : Nat := t.ticks.toNat * hwTicksPerTick + t.hwTicks.toNat

structure TickStruct.Normal (t : TickStruct) : Prop where
  hwTicks_lt : t.hwTicks.toNat < hwTicksPerTick

def hwTicksPerMsec : Nat := 96000

def rounded (count : Nat) : Nat := (count / 9600 + 5) / 10

variable {a b : TickStruct}

theorem TickStruct.Normal.count_lt (h : a.Normal) : a.count < 2 ^ 64 * hwTicksPerTick := by
  have hlt := h.hwTicks_lt
  have hticks := a.ticks.toNat_lt
  unfold TickStruct.count
  simp only [hwTicksPerTick] at *
  omega

theorem addTicks_spec (ha : a.Normal) (hb : b.Normal)
    (h : a.count + b.count < 2 ^ 64 * hwTicksPerTick) :
    (addTicks a b).Normal ∧ (addTicks a b).count = a.count + b.count := by
  have ha := ha.hwTicks_lt
  have hb := hb.hwTicks_lt
  have hat := a.ticks.toNat_lt
  have hbt := b.ticks.toNat_lt
  have hwtpt : (UInt32.ofNat hwTicksPerTick).toNat = hwTicksPerTick := rfl
  have hge : a.hwTicks ≥ UInt32.ofNat hwTicksPerTick - b.hwTicks ↔
      hwTicksPerTick ≤ a.hwTicks.toNat + b.hwTicks.toNat := by
    rw [ge_iff_le, UInt32.le_iff_toNat_le, UInt32.toNat_sub, hwtpt]
    simp only [hwTicksPerTick] at *
    omega
  unfold TickStruct.count at *
  unfold addTicks
  dsimp only
  split
  next hcarry =>
    rw [hge] at hcarry
    simp only [hwTicksPerTick] at *
    refine ⟨⟨?_⟩, ?_⟩
    · simp only [UInt32.toNat_add, UInt32.toNat_sub, hwtpt, hwTicksPerTick]
      omega
    · simp only [UInt32.toNat_add, UInt32.toNat_sub, UInt64.toNat_add, hwtpt, UInt64.toNat_one]
      omega
  next hcarry =>
    rw [hge] at hcarry
    simp only [hwTicksPerTick] at *
    refine ⟨⟨?_⟩, ?_⟩
    · simp only [UInt32.toNat_add, hwTicksPerTick]
      omega
    · simp only [UInt32.toNat_add, UInt64.toNat_add]
      omega

theorem subtractTicks_normal (ha : a.Normal) (hb : b.Normal) : (subtractTicks a b).Normal := by
  have ha := ha.hwTicks_lt
  have hb := hb.hwTicks_lt
  have hwtpt : (UInt32.ofNat hwTicksPerTick).toNat = hwTicksPerTick := rfl
  unfold subtractTicks
  refine ⟨?_⟩
  split
  next hlt =>
    rw [UInt32.lt_iff_toNat_lt] at hlt
    simp only [UInt32.toNat_sub, UInt32.toNat_add, hwtpt]
    simp only [hwTicksPerTick] at *
    omega
  next hle =>
    rw [UInt32.lt_iff_toNat_lt] at hle
    simp only [UInt32.toNat_sub]
    simp only [hwTicksPerTick] at *
    omega

/-- The difference is taken modulo the range of the counter. -/
theorem subtractTicks_count (ha : a.Normal) (hb : b.Normal) :
    (subtractTicks a b).count + b.count = a.count ∨
      (subtractTicks a b).count + b.count = a.count + 2 ^ 64 * hwTicksPerTick := by
  have ha := ha.hwTicks_lt
  have hb := hb.hwTicks_lt
  have hat := a.ticks.toNat_lt
  have hbt := b.ticks.toNat_lt
  have hwtpt : (UInt32.ofNat hwTicksPerTick).toNat = hwTicksPerTick := rfl
  unfold TickStruct.count subtractTicks
  split
  next hlt =>
    rw [UInt32.lt_iff_toNat_lt] at hlt
    simp only [UInt32.toNat_add, UInt32.toNat_sub, UInt64.toNat_sub, hwtpt, UInt64.toNat_one]
    simp only [hwTicksPerTick] at *
    omega
  next hle =>
    rw [UInt32.lt_iff_toNat_lt] at hle
    simp only [UInt32.toNat_sub, UInt64.toNat_sub]
    simp only [hwTicksPerTick] at *
    omega

theorem subtractTicks_of_le (ha : a.Normal) (hb : b.Normal) (h : b.count ≤ a.count) :
    (subtractTicks a b).count = a.count - b.count := by
  have hrange := (subtractTicks_normal ha hb).count_lt
  rcases subtractTicks_count ha hb with hcount | hcount <;> omega

theorem ticksToMilliseconds_eq (t : TickStruct) :
    ticksToMilliseconds t = (UInt32.ofNat (rounded t.count), decide (2 ^ 32 ≤ rounded t.count)) := by
  have h : ((t.ticks.toNat * hwTicksPerTick + t.hwTicks.toNat) * 10000 / ticksPerSecond /
      hwTicksPerTick + 5) / 10 = rounded t.count := by
    simp only [rounded, TickStruct.count, ticksPerSecond, hwTicksPerTick]
    omega
  rw [ticksToMilliseconds, h]

/-- Seconds of 96000000 hardware ticks, half a tick short of the next counted as that. -/
def wholeSeconds (count : Nat) : Nat := (count + 239999) / 96000000

theorem nearestTick_div {t : TickStruct} (ht : t.Normal) (hlt : t.ticks.toNat ≠ 2 ^ 64 - 1) :
    nearestTick t / ticksPerSecond = wholeSeconds t.count := by
  have hhw := ht.hwTicks_lt
  unfold nearestTick wholeSeconds TickStruct.count
  split
  next h =>
    simp only [ticksPerSecond, hwTicksPerTick] at *
    omega
  next h =>
    have hle := Nat.le_of_not_lt fun hhalf => h ⟨hlt, hhalf⟩
    simp only [ticksPerSecond, hwTicksPerTick] at *
    omega

theorem ticksToSeconds_eq {t : TickStruct} (ht : t.Normal) (hlt : t.ticks.toNat ≠ 2 ^ 64 - 1) :
    ticksToSeconds t =
      (UInt32.ofNat (wholeSeconds t.count), decide (2 ^ 32 ≤ wholeSeconds t.count)) := by
  rw [ticksToSeconds, nearestTick_div ht hlt]

theorem ticksToSeconds_overflow {t : TickStruct} (ht : t.Normal)
    (h : 2 ^ 63 * hwTicksPerTick ≤ t.count) : (ticksToSeconds t).2 = true := by
  have hhw := ht.hwTicks_lt
  have hle : t.ticks.toNat ≤ nearestTick t := by
    unfold nearestTick
    split
    · exact Nat.le_succ _
    · exact Nat.le_refl _
  rw [ticksToSeconds, decide_eq_true_eq]
  simp only [TickStruct.count, ticksPerSecond, hwTicksPerTick] at *
  omega

theorem msecsToTicks_spec (msecs : UInt32) :
    (msecsToTicks msecs).Normal ∧ (msecsToTicks msecs).count = msecs.toNat * hwTicksPerMsec := by
  have h := msecs.toNat_lt
  have hrest : (msecs.toNat * 200 % 1000 * 480000 + 500) / 1000 = msecs.toNat % 5 * 96000 := by omega
  have hticks : msecs.toNat * 200 / 1000 = msecs.toNat / 5 := by omega
  have hhw : msecs.toNat % 5 * 96000 < 480000 := by omega
  have hw32 : msecs.toNat % 5 * 96000 % 2 ^ 32 = msecs.toNat % 5 * 96000 :=
    Nat.mod_eq_of_lt (by omega)
  have hw64 : msecs.toNat / 5 % 2 ^ 64 = msecs.toNat / 5 := Nat.mod_eq_of_lt (by omega)
  unfold msecsToTicks
  simp only [ticksPerSecond, hwTicksPerTick, hrest, hticks]
  refine ⟨⟨?_⟩, ?_⟩
  · rw [UInt32.toNat_ofNat', hw32]
    exact hhw
  · rw [TickStruct.count, UInt32.toNat_ofNat', UInt64.toNat_ofNat', hw32, hw64, hwTicksPerTick,
      hwTicksPerMsec]
    omega

theorem secondsToTicks_spec (seconds : UInt32) : (secondsToTicks seconds).Normal ∧
    (secondsToTicks seconds).count = seconds.toNat * 1000 * hwTicksPerMsec := by
  have h := seconds.toNat_lt
  refine ⟨⟨Nat.zero_lt_succ _⟩, ?_⟩
  simp only [secondsToTicks, TickStruct.count, UInt64.toNat_ofNat', UInt32.toNat_zero, ticksPerSecond,
    hwTicksPerTick, hwTicksPerMsec]
  omega

theorem timeDiffMilliseconds_of_le (ha : a.Normal) (hb : b.Normal) (h : b.count ≤ a.count) :
    timeDiffMilliseconds a b = ((UInt32.ofNat (rounded (a.count - b.count))).toInt32,
      decide (2 ^ 32 ≤ rounded (a.count - b.count))) := by
  rw [timeDiffMilliseconds, ticksToMilliseconds_eq, subtractTicks_of_le ha hb h]

theorem timeDiffMilliseconds_of_gt (ha : a.Normal) (hb : b.Normal) (h : a.count < b.count)
    (hlt : b.count < 2 ^ 63 * hwTicksPerTick) : (timeDiffMilliseconds a b).2 = true := by
  have hsub : (subtractTicks a b).count + b.count = a.count + 2 ^ 64 * hwTicksPerTick := by
    rcases subtractTicks_count ha hb with hcount | hcount
    · omega
    · exact hcount
  rw [timeDiffMilliseconds, ticksToMilliseconds_eq, decide_eq_true_eq]
  simp only [rounded, hwTicksPerTick] at *
  omega

theorem timeDiffSeconds_of_le (ha : a.Normal) (hb : b.Normal) (h : b.count ≤ a.count)
    (hlt : a.count < 2 ^ 63 * hwTicksPerTick) :
    timeDiffSeconds a b = ((UInt32.ofNat (wholeSeconds (a.count - b.count))).toInt32,
      decide (2 ^ 32 ≤ wholeSeconds (a.count - b.count))) := by
  have hsub := subtractTicks_of_le ha hb h
  rw [timeDiffSeconds, ticksToSeconds_eq (subtractTicks_normal ha hb), hsub]
  simp only [TickStruct.count, hwTicksPerTick] at hsub hlt
  omega

theorem timeDiffSeconds_of_gt (ha : a.Normal) (hb : b.Normal) (h : a.count < b.count)
    (hlt : b.count < 2 ^ 63 * hwTicksPerTick) : (timeDiffSeconds a b).2 = true := by
  have hnormal := subtractTicks_normal ha hb
  have hsub : (subtractTicks a b).count + b.count = a.count + 2 ^ 64 * hwTicksPerTick := by
    rcases subtractTicks_count ha hb with hcount | hcount
    · omega
    · exact hcount
  rw [timeDiffSeconds]
  exact ticksToSeconds_overflow hnormal (by omega)

end Counts

section Times

def TimeStruct.msecs (t : TimeStruct) : Nat := t.seconds.toNat * 1000 + t.milliseconds.toNat

theorem timeToTicks_spec (t : TimeStruct) :
    (timeToTicks t).Normal ∧ (timeToTicks t).count = t.msecs * hwTicksPerMsec := by
  obtain ⟨hs, hsc⟩ := secondsToTicks_spec t.seconds
  obtain ⟨hm, hmc⟩ := msecsToTicks_spec t.milliseconds
  have hslt := t.seconds.toNat_lt
  have hmlt := t.milliseconds.toNat_lt
  obtain ⟨hnormal, hcount⟩ := addTicks_spec hs hm (by
    rw [hsc, hmc]
    simp only [hwTicksPerMsec, hwTicksPerTick]
    omega)
  refine ⟨hnormal, ?_⟩
  rw [timeToTicks, hcount, hsc, hmc, TimeStruct.msecs, Nat.add_mul]

theorem timeToTicks_count_lt (t : TimeStruct) :
    (timeToTicks t).count < 2 ^ 63 * hwTicksPerTick := by
  have hs := t.seconds.toNat_lt
  have hm := t.milliseconds.toNat_lt
  rw [(timeToTicks_spec t).2, TimeStruct.msecs]
  simp only [hwTicksPerMsec, hwTicksPerTick]
  omega

theorem rounded_msecs (k : Nat) : rounded (k * hwTicksPerMsec) = k := by
  simp only [rounded, hwTicksPerMsec]
  omega

theorem toInt_toInt32_ofNat {k : Nat} (h : k < 2 ^ 31) : (UInt32.ofNat k).toInt32.toInt = k := by
  have hk : (BitVec.ofNat 32 k).toNat = k := by
    rw [BitVec.toNat_ofNat, Nat.mod_eq_of_lt (by omega)]
  change (BitVec.ofNat 32 k).toInt = k
  rw [BitVec.toInt_eq_toNat_of_lt (by omega), hk]

theorem toNat_toUInt32 {d : Int32} (h : 0 ≤ d.toInt) :
    (d.toUInt32.toNat : Int) = d.toInt ∧ d.toUInt32.toNat < 2 ^ 31 := by
  change 0 ≤ d.toBitVec.toInt at h
  change (d.toBitVec.toNat : Int) = d.toBitVec.toInt ∧ d.toBitVec.toNat < 2 ^ 31
  rw [BitVec.toInt_eq_toNat_cond] at h ⊢
  have hlt := d.toBitVec.isLt
  split at h <;> omega

theorem timeDiffMilliseconds_msecs {t u : TimeStruct} (h : u.msecs ≤ t.msecs)
    (hlt : t.msecs < u.msecs + 2 ^ 32) :
    timeDiffMilliseconds (timeToTicks t) (timeToTicks u) =
      ((UInt32.ofNat (t.msecs - u.msecs)).toInt32, false) := by
  obtain ⟨ht, htc⟩ := timeToTicks_spec t
  obtain ⟨hu, huc⟩ := timeToTicks_spec u
  rw [timeDiffMilliseconds_of_le ht hu (by rw [htc, huc]; exact Nat.mul_le_mul_right _ h), htc,
    huc, ← Nat.sub_mul, rounded_msecs, decide_eq_false (by omega)]

/-- Up to the range of a word the difference of a later time is its word. -/
theorem diffMilliseconds_toUInt32 {t u : TimeStruct} (h : u.msecs ≤ t.msecs)
    (hlt : t.msecs < u.msecs + 2 ^ 32) :
    (diffMilliseconds t u).toUInt32.toNat = t.msecs - u.msecs := by
  rw [diffMilliseconds, timeDiffMilliseconds_msecs h hlt]
  dsimp only
  rw [if_neg (by decide), UInt32.toUInt32_toInt32, UInt32.toNat_ofNat', Nat.mod_eq_of_lt (by omega)]

/-- The difference is the distance: the order of the two times does not show. -/
theorem diffMilliseconds_toInt {t u : TimeStruct} (h : t.msecs < u.msecs + 2 ^ 31)
    (h' : u.msecs < t.msecs + 2 ^ 31) :
    (diffMilliseconds t u).toInt = ((t.msecs : Int) - u.msecs).natAbs := by
  obtain ⟨ht, htc⟩ := timeToTicks_spec t
  obtain ⟨hu, huc⟩ := timeToTicks_spec u
  rw [diffMilliseconds]
  rcases Nat.lt_or_ge t.msecs u.msecs with hlt | hle
  · have hover : (timeDiffMilliseconds (timeToTicks t) (timeToTicks u)).2 = true := by
      refine timeDiffMilliseconds_of_gt ht hu ?_ (timeToTicks_count_lt u)
      rw [htc, huc]
      exact Nat.mul_lt_mul_of_pos_right hlt (by decide)
    dsimp only
    rw [if_pos hover, timeDiffMilliseconds_msecs (Nat.le_of_lt hlt) (by omega),
      toInt_toInt32_ofNat (by omega)]
    omega
  · rw [timeDiffMilliseconds_msecs hle (by omega)]
    dsimp only
    rw [if_neg (by decide), toInt_toInt32_ofNat (by omega)]
    omega

theorem timeDiffSeconds_msecs {t u : TimeStruct} (h : u.msecs ≤ t.msecs) :
    timeDiffSeconds (timeToTicks t) (timeToTicks u) =
      ((UInt32.ofNat ((t.msecs - u.msecs + 2) / 1000)).toInt32,
        decide (2 ^ 32 ≤ (t.msecs - u.msecs + 2) / 1000)) := by
  obtain ⟨ht, htc⟩ := timeToTicks_spec t
  obtain ⟨hu, huc⟩ := timeToTicks_spec u
  have hwhole : wholeSeconds ((timeToTicks t).count - (timeToTicks u).count) =
      (t.msecs - u.msecs + 2) / 1000 := by
    rw [htc, huc, ← Nat.sub_mul]
    simp only [wholeSeconds, hwTicksPerMsec]
    omega
  rw [timeDiffSeconds_of_le ht hu (by rw [htc, huc]; exact Nat.mul_le_mul_right _ h)
    (timeToTicks_count_lt t), hwhole]

/-- Within the range of the result the difference is the distance in seconds, of which the last
begins two milliseconds early. -/
theorem diffSeconds_toInt {t u : TimeStruct} (h : t.msecs + 2 < u.msecs + 2 ^ 31 * 1000)
    (h' : u.msecs + 2 < t.msecs + 2 ^ 31 * 1000) :
    (diffSeconds t u).toInt = (((t.msecs : Int) - u.msecs).natAbs + 2) / 1000 := by
  rw [diffSeconds]
  rcases Nat.lt_or_ge t.msecs u.msecs with hlt | hle
  · have hover : (timeDiffSeconds (timeToTicks t) (timeToTicks u)).2 = true := by
      obtain ⟨ht, htc⟩ := timeToTicks_spec t
      obtain ⟨hu, huc⟩ := timeToTicks_spec u
      refine timeDiffSeconds_of_gt ht hu ?_ (timeToTicks_count_lt u)
      rw [htc, huc]
      exact Nat.mul_lt_mul_of_pos_right hlt (by decide)
    dsimp only
    rw [if_pos hover, timeDiffSeconds_msecs (Nat.le_of_lt hlt), toInt_toInt32_ofNat (by omega)]
    omega
  · rw [timeDiffSeconds_msecs hle]
    dsimp only
    rw [if_neg (by simp; omega), toInt_toInt32_ofNat (by omega)]
    omega

end Times

end EdgeNode.Sys
