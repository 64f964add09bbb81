import EdgeNode.Lib.Runs
import EdgeNode.Obj.Pacing

/-! `FTE_TIME_DELAY`, which paces the loops of the tasks. -/

namespace EdgeNode.Obj

open Runs Sys

section Delay

/-- `FTE_TIME_DELAY`. -/
structure TimeDelay where
  xNextTicks : TickStruct
  ulDelayMS : UInt32

/-- `FTE_TIME_DELAY_init`. -/
def TimeDelay.init (counter : Nat) (ulDelayMS : UInt32) : TimeDelay :=
  ⟨elapsedTicks counter, ulDelayMS⟩

/-- `FTE_TIME_DELAY_waitingAndSetNext`, which reads the counter and after an overrun reads it again,
with the milliseconds that it waits. -/
def TimeDelay.waitingAndSetNext (pObj : TimeDelay) (counter again : Nat) :
    Option UInt32 × TimeDelay :=
  let (nDiffTime, bOverflow) := timeDiffMilliseconds pObj.xNextTicks (elapsedTicks counter)
  if nDiffTime > 0 ∧ bOverflow = false then
    (some nDiffTime.toUInt32,
      { pObj with xNextTicks := timeAddMsecToTicks pObj.xNextTicks pObj.ulDelayMS })
  else
    (none, { pObj with xNextTicks := timeAddMsecToTicks (elapsedTicks again) pObj.ulDelayMS })

end Delay

section Loops

/-- A loop with the counter at which its last call could have returned. -/
structure PacedLoop where
  xDelay : TimeDelay
  counter : Nat

/-- The hardware ticks up to a call, whatever the wait before has taken too long among them, and those
between the two readings of the call. -/
structure Work where
  before : Nat
  between : Nat

namespace PacedLoop

def start (counter : Nat) (ulDelayMS : UInt32) : PacedLoop :=
  ⟨TimeDelay.init counter ulDelayMS, counter⟩

def call (s : PacedLoop) (w : Work) : Option UInt32 × TimeDelay :=
  s.xDelay.waitingAndSetNext (s.counter + w.before) (s.counter + w.before + w.between)

/-- The loop after a call that returned this. -/
def after (s : PacedLoop) (w : Work) : Option UInt32 × TimeDelay → PacedLoop
  | (some wait, xDelay) => ⟨xDelay, s.counter + w.before + wait.toNat * hwTicksPerMsec⟩
  | (none, xDelay) => ⟨xDelay, s.counter + w.before + w.between⟩

def next (s : PacedLoop) (w : Work) : Option PacedLoop := some (s.after w (s.call w))

/-- The deadline of the call to come, and the delay, in hardware ticks. -/
def deadline (s : PacedLoop) : Nat := s.xDelay.xNextTicks.count

def delay (s : PacedLoop) : Nat := s.xDelay.ulDelayMS.toNat * hwTicksPerMsec

/-- The call waits for no more than the delay and sets a deadline that is the delay, or up to `slack`
less, behind the one before; a call at the deadline or later does not wait, and without a wait the
deadline is the delay behind the current time. -/
structure Paces (slack : Nat) (s : PacedLoop) (w : Work) : Prop where
  wait : ∀ ms, (s.call w).1 = some ms → ms.toNat ≤ s.xDelay.ulDelayMS.toNat
  apart : s.deadline + s.delay ≤ (s.call w).2.xNextTicks.count + slack
  overrun : s.deadline ≤ s.counter + w.before → (s.call w).1 = none
  restart : (s.call w).1 = none →
    (s.call w).2.xNextTicks.count = s.counter + w.before + w.between + s.delay

/-- The ticks do not overflow in the call. -/
def Fresh (s : PacedLoop) (w : Work) : Prop :=
  s.counter + w.before + w.between + s.delay < 2 ^ 63 * hwTicksPerTick

instance (s : PacedLoop) : DecidablePred s.Fresh := fun _ => inferInstanceAs (Decidable (_ < _))

/-- The deadline is at most the delay and a half millisecond ahead. -/
structure Ahead (ulDelayMS : UInt32) (s : PacedLoop) : Prop where
  same : s.xDelay.ulDelayMS = ulDelayMS
  normal : s.xDelay.xNextTicks.Normal
  near : s.deadline < s.counter + s.delay + hwTicksPerMsec / 2

end PacedLoop

end Loops

section Steps

open PacedLoop

variable {s t : PacedLoop} {w : Work} {ulDelayMS : UInt32}

theorem addMsec_spec {tick : TickStruct} (hn : tick.Normal) (msecs : UInt32)
    (h : tick.count + msecs.toNat * hwTicksPerMsec < 2 ^ 64 * hwTicksPerTick) :
    (timeAddMsecToTicks tick msecs).Normal ∧
      (timeAddMsecToTicks tick msecs).count = tick.count + msecs.toNat * hwTicksPerMsec := by
  obtain ⟨hm, hmc⟩ := msecsToTicks_spec msecs
  unfold timeAddMsecToTicks
  split
  next =>
    rw [← hmc]
    exact addTicks_spec hn hm (by rwa [hmc])
  next hzero =>
    rw [ne_eq, not_not] at hzero
    refine ⟨hn, ?_⟩
    rw [hzero, UInt32.toNat_zero, Nat.zero_mul, Nat.add_zero]

/-- Of milliseconds that fit a signed word all but zero are waited for. -/
theorem waits_iff {ms : Nat} (h : ms < 2 ^ 31) :
    ((UInt32.ofNat ms).toInt32 > 0 ∧ decide (2 ^ 32 ≤ ms) = false) ↔ 0 < ms := by
  have hzero : (0 : Int32).toInt = 0 := rfl
  rw [gt_iff_lt, Int32.lt_iff_toInt_lt, toInt_toInt32_ofNat h, hzero, Int.natCast_pos]
  exact and_iff_left (decide_eq_false (by omega))

/-- What a call does: it waits for the milliseconds to the deadline, or there is less than half of one
left. -/
theorem call_cases (h : Ahead ulDelayMS s) (hdelay : ulDelayMS.toNat < 2 ^ 31) (hfresh : s.Fresh w) :
    (∃ ms xDelay, s.call w = (some ms, xDelay) ∧ xDelay.ulDelayMS = ulDelayMS ∧
      s.counter + w.before < s.deadline ∧
      ms.toNat = rounded (s.deadline - (s.counter + w.before)) ∧ xDelay.xNextTicks.Normal ∧
      xDelay.xNextTicks.count = s.deadline + s.delay) ∨
    (∃ xDelay, s.call w = (none, xDelay) ∧ xDelay.ulDelayMS = ulDelayMS ∧
      s.deadline < s.counter + w.before + hwTicksPerMsec / 2 ∧ xDelay.xNextTicks.Normal ∧
      xDelay.xNextTicks.count = s.counter + w.before + w.between + s.delay) := by
  obtain ⟨rfl, hnormal, hnear⟩ := h
  unfold Fresh at hfresh
  unfold deadline delay at *
  have hclock : s.counter + w.before < 2 ^ 64 * hwTicksPerTick := by
    simp only [hwTicksPerTick] at *
    omega
  have hagain : s.counter + w.before + w.between < 2 ^ 64 * hwTicksPerTick := by
    simp only [hwTicksPerTick] at *
    omega
  obtain ⟨hn, hc⟩ := elapsedTicks_spec hclock
  obtain ⟨hna, hca⟩ := elapsedTicks_spec hagain
  obtain ⟨hn1, hc1⟩ := addMsec_spec hnormal s.xDelay.ulDelayMS (by
    simp only [hwTicksPerTick, hwTicksPerMsec] at *
    omega)
  obtain ⟨hn2, hc2⟩ := addMsec_spec hna s.xDelay.ulDelayMS (by
    rw [hca]
    simp only [hwTicksPerTick] at *
    omega)
  rw [hca] at hc2
  unfold call TimeDelay.waitingAndSetNext
  rcases Nat.lt_or_ge s.xDelay.xNextTicks.count (s.counter + w.before) with hlate | hearly
  · have hover : (timeDiffMilliseconds s.xDelay.xNextTicks
        (elapsedTicks (s.counter + w.before))).2 = true :=
      timeDiffMilliseconds_of_gt hnormal hn (by rwa [hc]) (by
        rw [hc]
        omega)
    right
    dsimp only
    rw [if_neg fun hwait => Bool.false_ne_true (hwait.2.symm.trans hover)]
    exact ⟨_, rfl, rfl, by omega, hn2, hc2⟩
  · have hdiff := timeDiffMilliseconds_of_le hnormal hn (by rwa [hc])
    rw [hc] at hdiff
    have hsmall : rounded (s.xDelay.xNextTicks.count - (s.counter + w.before)) ≤
        s.xDelay.ulDelayMS.toNat := by
      simp only [rounded, hwTicksPerMsec] at *
      omega
    have hwaits := waits_iff (Nat.lt_of_le_of_lt hsmall hdelay)
    rw [hdiff]
    dsimp only
    by_cases hpos : 0 < rounded (s.xDelay.xNextTicks.count - (s.counter + w.before))
    · left
      rw [if_pos (hwaits.mpr hpos)]
      refine ⟨_, _, rfl, rfl, ?_, ?_, hn1, hc1⟩
      · simp only [rounded] at hpos
        omega
      · rw [UInt32.toUInt32_toInt32, UInt32.toNat_ofNat', Nat.mod_eq_of_lt (by omega)]
    · right
      rw [if_neg fun hwait => hpos (hwaits.mp hwait)]
      refine ⟨_, rfl, rfl, ?_, hn2, hc2⟩
      simp only [rounded, hwTicksPerMsec] at *
      omega

theorem ahead_start {counter : Nat} (h : counter < 2 ^ 64 * hwTicksPerTick) :
    Ahead ulDelayMS (start counter ulDelayMS) := by
  obtain ⟨hn, hc⟩ := elapsedTicks_spec h
  refine ⟨rfl, hn, ?_⟩
  unfold deadline
  rw [start, TimeDelay.init, hc]
  simp only [hwTicksPerMsec]
  omega

theorem delay_congr (h : t.xDelay.ulDelayMS = s.xDelay.ulDelayMS) : t.delay = s.delay := by
  rw [delay, delay, h]

/-- A call keeps the deadline ahead: the wait ends at most half a millisecond before the old one. -/
theorem ahead_next (h : Ahead ulDelayMS s) (hdelay : ulDelayMS.toNat < 2 ^ 31) (hfresh : s.Fresh w)
    (hnext : s.next w = some t) : Ahead ulDelayMS t := by
  rw [PacedLoop.next, Option.some.injEq] at hnext
  rcases call_cases h hdelay hfresh with ⟨ms, xDelay, hcall, hms, hbefore, hwait, hn, hc⟩ |
    ⟨xDelay, hcall, hms, hnear, hn, hc⟩
  · rw [hcall] at hnext
    subst hnext
    refine ⟨hms, hn, ?_⟩
    rw [delay_congr (hms.trans h.same.symm), deadline, after, hc, hwait]
    simp only [rounded, hwTicksPerMsec]
    omega
  · rw [hcall] at hnext
    subst hnext
    refine ⟨hms, hn, ?_⟩
    rw [delay_congr (hms.trans h.same.symm), deadline, after, hc]
    simp only [hwTicksPerMsec]
    omega

theorem PacedLoop.Ahead.paces (h : Ahead ulDelayMS s) (hdelay : ulDelayMS.toNat < 2 ^ 31)
    (hfresh : s.Fresh w) : s.Paces (hwTicksPerMsec / 2 - 1) w := by
  have hnear := h.near
  have hsame := h.same
  rcases call_cases h hdelay hfresh with ⟨ms, xDelay, hcall, hms, hbefore, hwait, hn, hc⟩ |
    ⟨xDelay, hcall, hms, hlate, hn, hc⟩
  · constructor
    · rw [hcall]
      rintro _ ⟨⟩
      unfold delay at hnear
      rw [hwait]
      simp only [rounded, hwTicksPerMsec] at *
      omega
    · rw [hcall, hc]
      exact Nat.le_add_right _ _
    · intro hle
      exact absurd hbefore (Nat.not_lt_of_le hle)
    · rw [hcall]
      rintro ⟨⟩
  · constructor
    · rw [hcall]
      rintro _ ⟨⟩
    · rw [hcall, hc]
      simp only [hwTicksPerMsec] at *
      omega
    · intro _
      rw [hcall]
    · intro _
      rw [hcall, hc]

end Steps

section Runs

open PacedLoop

/-- Along every run of calls no wait is longer than the delay, a deadline is less than half a
millisecond short of the delay behind the one before, and after an overrun the next wait starts from
the current time. -/
theorem paces_of_takes (counter : Nat) (ulDelayMS : UInt32) (works : List Work)
    (hdelay : ulDelayMS.toNat < 2 ^ 31) (hstart : counter < 2 ^ 63 * hwTicksPerTick)
    (hfresh : ∀ s w, Takes next (start counter ulDelayMS) works s w → s.Fresh w) :
    ∀ s w, Takes next (start counter ulDelayMS) works s w → s.Paces (hwTicksPerMsec / 2 - 1) w := by
  intro s w htakes
  have hahead : Ahead ulDelayMS (start counter ulDelayMS) := by
    apply ahead_start
    simp only [hwTicksPerTick] at *
    omega
  have hvisits : Visits next (start counter ulDelayMS) works s := by
    obtain ⟨pre, hprefix, hpre⟩ := htakes
    exact ⟨pre, (List.prefix_append pre [w]).trans hprefix, hpre⟩
  have hs := inv_of_takes hahead (fun s w t h hf ht => ahead_next h hdelay hf ht) hfresh hvisits
  exact hs.paces hdelay (hfresh s w htakes)

/-- A loop of a second that takes 300 milliseconds for its work. -/
def secondLoop : List Work := [⟨28800000, 10⟩, ⟨28800000, 10⟩]

theorem secondLoop_fresh :
    ∀ s w, Takes next (start 0 1000) secondLoop s w → s.Fresh w :=
  takes_of_along (by decide +kernel)

theorem paces_second : ∃ s, next (start 0 1000) ⟨28800000, 10⟩ = some s ∧
    s.Paces (hwTicksPerMsec / 2 - 1) ⟨28800000, 10⟩ :=
  ⟨_, rfl, paces_of_takes 0 1000 secondLoop (by decide) (by decide) secondLoop_fresh _ _
    ⟨[⟨28800000, 10⟩], List.prefix_rfl, rfl⟩⟩

/-- A call one hardware tick before the deadline takes it for overrun and sets the next one a tick
short; and with a delay of more than half the range of a word the deadline does not move. -/
theorem deadlines_closer :
    (¬ ∀ counter works, (∀ s w, Takes next (start counter 1000) works s w → s.Fresh w) →
      ∀ s w, Takes next (start counter 1000) works s w → s.Paces 0 w) ∧
    ¬ ∀ counter works, (∀ s w, Takes next (start counter 0xFFFFFFFF) works s w → s.Fresh w) →
      ∀ s w, Takes next (start counter 0xFFFFFFFF) works s w → s.Paces (hwTicksPerMsec / 2 - 1) w := by
  constructor
  · intro h
    have hpaces := h 0 [⟨0, 0⟩, ⟨95999999, 0⟩] (takes_of_along (by decide +kernel)) _ ⟨95999999, 0⟩
      ⟨[⟨0, 0⟩], List.prefix_rfl, rfl⟩
    exact absurd hpaces.apart (by decide +kernel)
  · intro h
    have hpaces := h 0 [⟨0, 0⟩, ⟨0, 0⟩] (takes_of_along (by decide +kernel)) _ ⟨0, 0⟩
      ⟨[⟨0, 0⟩], List.prefix_rfl, rfl⟩
    exact absurd hpaces.apart (by decide +kernel)

end Runs

end EdgeNode.Obj
