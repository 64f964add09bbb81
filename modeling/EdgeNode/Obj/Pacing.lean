import EdgeNode.Lib.Words
import EdgeNode.Sys.Ticks

/-! The delays that the periodic tasks ask for: `FTE_EVENT_task` by the wall clock, and
`FTE_TASK_objectManagement` by the elapsed ticks. -/

namespace EdgeNode.Obj

open Sys Words

def Paced (period : Nat) (delay : UInt32) : Prop := 0 < delay.toNat ∧ delay.toNat ≤ period

instance (period : Nat) (delay : UInt32) : Decidable (Paced period delay) :=
  inferInstanceAs (Decidable (_ ∧ _))

section EventTask

/-- What an iteration adds to the wall clock after the delay before it: the milliseconds that the
task wakes late, those that it works, and those by which the clock is set in between. -/
structure Iteration where
  lateness : Nat
  processing : Nat
  adjustment : Int

def Iteration.drift (a : Iteration) : Int := a.lateness + a.processing + a.adjustment

/-- The wall clock in milliseconds, the deadline, and the delay asked for last. -/
structure EventTask where
  clock : Int
  ulNextTime : UInt32
  delay : UInt32

/-- `_time_get`. -/
def timeGet (clock : Int) : TimeStruct := ⟨UInt32.ofInt (clock / 1000), UInt32.ofInt (clock % 1000)⟩

def ulTimeOf (xTime : TimeStruct) : UInt32 := xTime.seconds * 1000 + xTime.milliseconds

namespace EventTask

/-- `FTE_EVENT_task` before its loop. -/
def start (clock : Int) : EventTask := ⟨clock, ulTimeOf (timeGet clock), 0⟩

/-- An iteration, from the delay before it on. -/
def next (s : EventTask) (a : Iteration) : EventTask :=
  let clock := s.clock + s.delay.toNat + a.drift
  let ulNextTime := s.ulNextTime + 100
  let ulTime := ulTimeOf (timeGet clock)
  ⟨clock, ulNextTime, ulNextTime - ulTime⟩

def delays (s : EventTask) : List Iteration → List UInt32
  | [] => []
  | a :: as => (s.next a).delay :: (s.next a).delays as

/-- The deadline is the time that the delay is to end at, in words. -/
def Awaits (s : EventTask) : Prop := Stands s.ulNextTime (s.clock + s.delay.toNat)

end EventTask

theorem stands_ofInt (z : Int) : Stands (UInt32.ofInt z) z := by
  have h := Int.emod_nonneg z (show (2 ^ 32 : Int) ≠ 0 by decide)
  rw [Stands, UInt32.ofInt, UInt32.toNat_ofNat']
  omega

theorem stands_ulTimeOf (clock : Int) : Stands (ulTimeOf (timeGet clock)) clock := by
  have hs := stands_ofInt (clock / 1000)
  have hm := stands_ofInt (clock % 1000)
  have hthousand : (1000 : UInt32).toNat = 1000 := rfl
  simp only [Stands, ulTimeOf, timeGet, UInt32.toNat_add, UInt32.toNat_mul, hthousand] at *
  omega

theorem EventTask.awaits_start (clock : Int) : (start clock).Awaits := by
  have h := stands_ulTimeOf clock
  have hzero : (0 : UInt32).toNat = 0 := rfl
  simp only [Awaits, start, Stands, hzero] at *
  omega

/-- An iteration leaves a delay of the period less its drift, modulo the range of a word. -/
theorem EventTask.Awaits.next {s : EventTask} (h : s.Awaits) (a : Iteration) :
    (s.next a).Awaits ∧ Stands (s.next a).delay (100 - a.drift) := by
  have hclock := stands_ulTimeOf (s.clock + s.delay.toNat + a.drift)
  have hnext : Stands (s.ulNextTime + 100) (s.clock + s.delay.toNat + 100) :=
    h.add (stands_toNat 100)
  have hdelay := hnext.sub hclock
  constructor
  · simp only [Awaits, EventTask.next, Stands] at *
    omega
  · simp only [EventTask.next, Stands] at *
    omega

theorem Iteration.paced_iff {a : Iteration} {delay : UInt32} (h : Stands delay (100 - a.drift)) :
    Paced 100 delay ↔ a.drift % 2 ^ 32 < 100 := by
  simp only [Paced, Stands] at *
  omega

/-- The event task asks for a delay within its period in every iteration exactly when no iteration
drifts by a period, or backwards. -/
theorem EventTask.paced_iff {s : EventTask} (h : s.Awaits) (as : List Iteration) :
    (∀ d ∈ s.delays as, Paced 100 d) ↔ ∀ a ∈ as, a.drift % 2 ^ 32 < 100 := by
  induction as generalizing s with
  | nil => simp [EventTask.delays]
  | cons a as ih =>
    obtain ⟨hawaits, hdelay⟩ := h.next a
    rw [EventTask.delays, List.forall_mem_cons, List.forall_mem_cons, ih hawaits,
      Iteration.paced_iff hdelay]

end EventTask

section ManagementTask

/-- `FTE_OBJ_EVENT_CHECK_INTERVAL`. -/
def eventCheckInterval : UInt32 := 200

/-- The elapsed hardware ticks, the next turn of the task, and the delay asked for last. -/
structure ManagementTask where
  counter : Nat
  xNextTicks : TickStruct
  delay : UInt32

/-- `_time_get_elapsed_ticks`. -/
def elapsedTicks (counter : Nat) : TickStruct :=
  ⟨UInt64.ofNat (counter / hwTicksPerTick), UInt32.ofNat (counter % hwTicksPerTick)⟩

def nDiffTimeOf (xNextTicks xTicks : TickStruct) : Int32 :=
  let (nDiffTime, bOverflow) := timeDiffMilliseconds xNextTicks xTicks
  if bOverflow then eventCheckInterval.toInt32 else nDiffTime

/-- The loop that looks for the next turn, for `fuel` rounds at most. -/
def untilNext (xTicks : TickStruct) : Nat → TickStruct → Option (TickStruct × Int32)
  | 0, _ => none
  | fuel + 1, xNextTicks =>
    let xNextTicks := timeAddMsecToTicks xNextTicks eventCheckInterval
    let nDiffTime := nDiffTimeOf xNextTicks xTicks
    if nDiffTime ≤ 0 then untilNext xTicks fuel xNextTicks else some (xNextTicks, nDiffTime)

namespace ManagementTask

/-- `FTE_TASK_objectManagement` before its loop. -/
def start (counter : Nat) : ManagementTask := ⟨counter, elapsedTicks counter, 0⟩

/-- An iteration from the delay before it on, which ends `work` hardware ticks after the delay could
have ended. -/
def next (fuel : Nat) (s : ManagementTask) (work : Nat) : Option ManagementTask := do
  let counter := s.counter + s.delay.toNat * hwTicksPerMsec + work
  let (xNextTicks, nDiffTime) ← untilNext (elapsedTicks counter) fuel s.xNextTicks
  some ⟨counter, xNextTicks, nDiffTime.toUInt32⟩

def delays (fuel : Nat) (s : ManagementTask) : List Nat → Option (List UInt32)
  | [] => some []
  | work :: works => do
    let s ← s.next fuel work
    return s.delay :: (← s.delays fuel works)

/-- The next turn is at most half a millisecond after the end of the delay. -/
structure Due (s : ManagementTask) : Prop where
  normal : s.xNextTicks.Normal
  due : s.xNextTicks.count < s.counter + s.delay.toNat * hwTicksPerMsec + hwTicksPerMsec / 2

end ManagementTask

variable {xNextTicks xTicks : TickStruct}

theorem elapsedTicks_spec {counter : Nat} (h : counter < 2 ^ 64 * hwTicksPerTick) :
    (elapsedTicks counter).Normal ∧ (elapsedTicks counter).count = counter := by
  have hrest : counter % hwTicksPerTick < hwTicksPerTick := Nat.mod_lt _ (by decide)
  have hw32 : counter % hwTicksPerTick % 2 ^ 32 = counter % hwTicksPerTick :=
    Nat.mod_eq_of_lt (Nat.lt_trans hrest (by decide))
  have hw64 : counter / hwTicksPerTick % 2 ^ 64 = counter / hwTicksPerTick :=
    Nat.mod_eq_of_lt (Nat.div_lt_of_lt_mul (by rwa [Nat.mul_comm] at h))
  refine ⟨⟨?_⟩, ?_⟩
  · rw [elapsedTicks, UInt32.toNat_ofNat', hw32]
    exact hrest
  · rw [elapsedTicks, TickStruct.count, UInt32.toNat_ofNat', UInt64.toNat_ofNat', hw32, hw64]
    exact Nat.div_add_mod' _ _

theorem add_eventCheckInterval (hn : xNextTicks.Normal)
    (h : xNextTicks.count + 200 * hwTicksPerMsec < 2 ^ 64 * hwTicksPerTick) :
    (timeAddMsecToTicks xNextTicks eventCheckInterval).Normal ∧
      (timeAddMsecToTicks xNextTicks eventCheckInterval).count =
        xNextTicks.count + 200 * hwTicksPerMsec := by
  obtain ⟨hm, hmc⟩ := msecsToTicks_spec eventCheckInterval
  have hmsecs : eventCheckInterval.toNat = 200 := rfl
  rw [hmsecs] at hmc
  rw [timeAddMsecToTicks, if_pos (by decide), ← hmc]
  exact addTicks_spec hn hm (by rwa [hmc])

/-- What the loop makes of the time to the next turn: the period if the turn is past, else the
milliseconds to it. -/
theorem nDiffTimeOf_toInt (hn : xNextTicks.Normal) (ht : xTicks.Normal)
    (hyoung : xTicks.count < 2 ^ 63 * hwTicksPerTick)
    (h : xNextTicks.count < xTicks.count + 200 * hwTicksPerMsec + hwTicksPerMsec / 2) :
    (nDiffTimeOf xNextTicks xTicks).toInt =
      if xNextTicks.count < xTicks.count then 200 else rounded (xNextTicks.count - xTicks.count) := by
  rw [nDiffTimeOf]
  rcases Nat.lt_or_ge xNextTicks.count xTicks.count with hlt | hle
  · rw [if_pos hlt]
    dsimp only
    rw [if_pos (timeDiffMilliseconds_of_gt hn ht hlt hyoung)]
    rfl
  · have hsmall : rounded (xNextTicks.count - xTicks.count) ≤ 200 := by
      simp only [rounded, hwTicksPerMsec] at *
      omega
    rw [if_neg (Nat.not_lt.mpr hle), timeDiffMilliseconds_of_le hn ht hle]
    dsimp only
    rw [if_neg (by simpa using Nat.lt_of_le_of_lt hsmall (by decide)),
      toInt_toInt32_ofNat (by omega)]

/-- With less than half a millisecond left the turn after that is due next. -/
theorem untilNext_of_left (fuel : Nat) (hn : xNextTicks.Normal) (ht : xTicks.Normal)
    (hyoung : xTicks.count < 2 ^ 63 * hwTicksPerTick) (hpast : xTicks.count ≤ xNextTicks.count)
    (hleft : xNextTicks.count < xTicks.count + hwTicksPerMsec / 2) :
    ∃ next nDiffTime, untilNext xTicks (fuel + 1) xNextTicks = some (next, nDiffTime) ∧
      Paced 200 nDiffTime.toUInt32 ∧ next.Normal ∧
      next.count < xTicks.count + nDiffTime.toUInt32.toNat * hwTicksPerMsec + hwTicksPerMsec / 2 := by
  obtain ⟨hn1, hc1⟩ := add_eventCheckInterval hn (by
    simp only [hwTicksPerMsec, hwTicksPerTick] at *
    omega)
  have hd1 := nDiffTimeOf_toInt hn1 ht hyoung (by rw [hc1]; omega)
  have hpos : (0 : Int32).toInt = 0 := rfl
  have hperiod : (nDiffTimeOf (timeAddMsecToTicks xNextTicks eventCheckInterval) xTicks).toInt =
      (200 : Nat) := by
    rw [hd1, hc1, if_neg (by omega)]
    simp only [rounded, hwTicksPerMsec] at *
    omega
  have hdelay := toNat_toUInt32 hperiod
  rw [untilNext, if_neg (by rw [Int32.le_iff_toInt_le, hperiod, hpos]; omega)]
  refine ⟨_, _, rfl, ⟨by omega, by omega⟩, hn1, ?_⟩
  rw [hc1, hdelay]
  omega

/-- The loop ends in its second round at the latest. -/
theorem untilNext_spec (fuel : Nat) (hn : xNextTicks.Normal) (ht : xTicks.Normal)
    (hyoung : xTicks.count < 2 ^ 63 * hwTicksPerTick)
    (h : xNextTicks.count < xTicks.count + hwTicksPerMsec / 2) :
    ∃ next nDiffTime, untilNext xTicks (fuel + 2) xNextTicks = some (next, nDiffTime) ∧
      Paced 200 nDiffTime.toUInt32 ∧ next.Normal ∧
      next.count < xTicks.count + nDiffTime.toUInt32.toNat * hwTicksPerMsec + hwTicksPerMsec / 2 := by
  obtain ⟨hn1, hc1⟩ := add_eventCheckInterval hn (by
    simp only [hwTicksPerMsec, hwTicksPerTick] at *
    omega)
  have hd1 := nDiffTimeOf_toInt hn1 ht hyoung (by rw [hc1]; omega)
  have hpos : (0 : Int32).toInt = 0 := rfl
  rw [untilNext]
  by_cases hdue : nDiffTimeOf (timeAddMsecToTicks xNextTicks eventCheckInterval) xTicks ≤ 0
  · rw [if_pos hdue]
    rw [Int32.le_iff_toInt_le, hd1, hpos, hc1] at hdue
    have hleft : xTicks.count ≤ xNextTicks.count + 200 * hwTicksPerMsec ∧
        xNextTicks.count + 200 * hwTicksPerMsec < xTicks.count + hwTicksPerMsec / 2 := by
      split at hdue
      next => omega
      next hle =>
        simp only [rounded, hwTicksPerMsec] at *
        omega
    rw [← hc1] at hleft
    exact untilNext_of_left fuel hn1 ht hyoung hleft.1 hleft.2
  · rw [if_neg hdue]
    rw [Int32.le_iff_toInt_le, hd1, hpos] at hdue
    rw [hc1] at hd1 hdue
    by_cases hlt : xNextTicks.count + 200 * hwTicksPerMsec < xTicks.count
    · rw [if_pos hlt] at hd1
      have hdelay := toNat_toUInt32 (k := 200) hd1
      refine ⟨_, _, rfl, ⟨by omega, by omega⟩, hn1, ?_⟩
      rw [hc1, hdelay]
      omega
    · rw [if_neg hlt] at hd1 hdue
      have hdelay := toNat_toUInt32 hd1
      refine ⟨_, _, rfl, ⟨by omega, ?_⟩, hn1, ?_⟩
      · rw [hdelay]
        simp only [rounded, hwTicksPerMsec] at *
        omega
      · rw [hc1, hdelay]
        simp only [rounded, hwTicksPerMsec] at *
        omega

theorem ManagementTask.due_start {counter : Nat} (h : counter < 2 ^ 64 * hwTicksPerTick) :
    (start counter).Due := by
  obtain ⟨hnormal, hcount⟩ := elapsedTicks_spec h
  refine ⟨hnormal, ?_⟩
  rw [start, hcount]
  simp only [hwTicksPerMsec]
  omega

theorem ManagementTask.Due.next {s : ManagementTask} (h : s.Due) (fuel : Nat) {work : Nat}
    (hyoung : s.counter + s.delay.toNat * hwTicksPerMsec + work < 2 ^ 63 * hwTicksPerTick) :
    ∃ s', s.next (fuel + 2) work = some s' ∧ s'.Due ∧ Paced 200 s'.delay ∧
      s'.counter = s.counter + s.delay.toNat * hwTicksPerMsec + work := by
  have hrange : s.counter + s.delay.toNat * hwTicksPerMsec + work < 2 ^ 64 * hwTicksPerTick := by
    simp only [hwTicksPerTick] at *
    omega
  obtain ⟨hnormal, hcount⟩ := elapsedTicks_spec hrange
  have hdue := h.due
  obtain ⟨next, nDiffTime, hloop, hpaced, hn, hlt⟩ := untilNext_spec fuel h.normal hnormal
    (by rwa [hcount]) (by rw [hcount]; omega)
  rw [hcount] at hlt
  refine ⟨⟨_, next, nDiffTime.toUInt32⟩, ?_, ⟨hn, hlt⟩, hpaced, rfl⟩
  rw [ManagementTask.next, hloop]
  rfl

theorem ManagementTask.Due.paced {s : ManagementTask} (h : s.Due) (fuel : Nat) {works : List Nat}
    (hyoung : s.counter + s.delay.toNat * hwTicksPerMsec +
      (works.map (· + 200 * hwTicksPerMsec)).sum < 2 ^ 63 * hwTicksPerTick) :
    ∃ ds, s.delays (fuel + 2) works = some ds ∧ ∀ d ∈ ds, Paced 200 d := by
  induction works generalizing s with
  | nil => exact ⟨[], rfl, fun d hd => absurd hd List.not_mem_nil⟩
  | cons work works ih =>
    rw [List.map_cons, List.sum_cons] at hyoung
    have hsum : s.counter + s.delay.toNat * hwTicksPerMsec + work < 2 ^ 63 * hwTicksPerTick := by
      omega
    obtain ⟨s', hnext, hdue, hpaced, hcounter⟩ := h.next fuel hsum
    obtain ⟨ds, hds, hall⟩ := ih hdue (by
      have hle := Nat.mul_le_mul_right hwTicksPerMsec hpaced.2
      omega)
    refine ⟨s'.delay :: ds, by rw [ManagementTask.delays, hnext]; simp [hds], ?_⟩
    rw [List.forall_mem_cons]
    exact ⟨hpaced, hall⟩

end ManagementTask

/-- Both tasks ask for delays within their periods in every iteration exactly when no iteration of
the event task drifts, by its own time and the setting of the clock, as far as a period or back. -/
theorem tasks_paced_iff (clock : Int) (as : List Iteration) (counter fuel : Nat) (works : List Nat)
    (hyoung : counter + (works.map (· + 200 * hwTicksPerMsec)).sum < 2 ^ 63 * hwTicksPerTick) :
    ((∀ d ∈ (EventTask.start clock).delays as, Paced 100 d) ∧
      ∃ ds, (ManagementTask.start counter).delays (fuel + 2) works = some ds ∧
        ∀ d ∈ ds, Paced 200 d) ↔
    ∀ a ∈ as, a.drift % 2 ^ 32 < 100 := by
  have hdue : (ManagementTask.start counter).Due :=
    ManagementTask.due_start (by simp only [hwTicksPerTick] at *; omega)
  have hzero : (ManagementTask.start counter).delay.toNat = 0 := rfl
  have hmanagement := hdue.paced fuel (by rw [hzero, Nat.zero_mul]; exact hyoung)
  rw [EventTask.paced_iff (EventTask.awaits_start clock)]
  exact and_iff_left hmanagement

/-- An iteration that takes 150 ms makes the event task ask for a delay of 49 days. -/
theorem eventTask_overrun :
    ¬ ∀ (clock : Int) (as : List Iteration), ∀ d ∈ (EventTask.start clock).delays as, Paced 100 d := by
  intro h
  have hpaced := h 1000 [⟨0, 150, 0⟩] _ List.mem_cons_self
  revert hpaced
  decide

theorem tasks_paced_short :
    (∀ d ∈ (EventTask.start 1000).delays [⟨0, 30, 0⟩, ⟨8, 50, -20⟩], Paced 100 d) ∧
      ∃ ds, (ManagementTask.start 7).delays 2 [960000, 48000000, 5] = some ds ∧
        ∀ d ∈ ds, Paced 200 d :=
  (tasks_paced_iff 1000 _ 7 0 _ (by decide)).mpr (by decide)

end EdgeNode.Obj
