import EdgeNode.Lib.Runs
import EdgeNode.Obj.Event
import Mathlib.Data.List.Nodup

/-! Interval events: `FTE_EVENT_proc` over the list of events, in the turns of `FTE_EVENT_task`. -/

namespace EdgeNode.Obj

open Runs

def eventTypeLog : UInt32 := 0x10
def eventTypeSnmpTrap : UInt32 := 0x20
def eventTypeMqttPub : UInt32 := 0x40

/-- `FTE_EVENT` with what `FTE_EVENT_proc` reads of its configuration: the seconds of the time stamp,
and the identifiers of the objects it is attached to. -/
structure TimedEvent where
  pEvent : Nat
  ulEPID : UInt32
  xType : UInt32
  xLevel : UInt32
  xCondition : Condition
  ulInterval : UInt32
  bOccurred : Bool
  bChanged : Bool
  xTimeStamp : UInt32
  xObjectList : List UInt32

inductive Notice where
  | log (nID xLevel : UInt32)
  | trap (nID : UInt32) (bOccurred : Bool)
  | publish (nID : UInt32)

namespace TimedEvent

def isSet (e : TimedEvent) (flag : UInt32) : Bool := e.xType &&& flag == flag

/-- The loop over the objects of an event that is reported. -/
def notices (e : TimedEvent) : List Notice :=
  e.xObjectList.flatMap fun nID =>
    (if e.isSet eventTypeLog then [.log nID e.xLevel] else []) ++
    (if e.isSet eventTypeSnmpTrap then [.trap nID e.bOccurred] else []) ++
    (if e.isSet eventTypeMqttPub then [.publish nID] else [])

/-- The events that an interval counts from: the enabled ones of the endpoint without an interval. -/
def Holds (e e2 : TimedEvent) : Prop :=
  e2.isSet eventTypeEnable = true ∧ e.ulEPID = e2.ulEPID ∧ e2.xCondition ≠ .interval

instance (e e2 : TimedEvent) : Decidable (e.Holds e2) := by
  unfold Holds
  infer_instance

/-- A turn of the loop over the other events. -/
def push (e e2 : TimedEvent) : TimedEvent :=
  if e.Holds e2 then
    if e.xTimeStamp < e2.xTimeStamp + e.ulInterval then
      { e with xTimeStamp := e2.xTimeStamp + e.ulInterval }
    else e
  else e

/-- The branch of an `INTERVAL` event. -/
def atInterval (xTime : UInt32) (eventList : List TimedEvent) (e : TimedEvent) : TimedEvent :=
  if e.xTimeStamp = 0 then { e with xTimeStamp := xTime + e.ulInterval }
  else if e.xTimeStamp < xTime then
    let e := eventList.foldl push e
    if e.xTimeStamp < xTime then
      { e with bChanged := true, xTimeStamp := e.xTimeStamp + e.ulInterval }
    else e
  else e

/-- `FTE_EVENT_proc`, with what it reports when it finds the event changed. -/
def proc (xTime : UInt32) (eventList : List TimedEvent) (e : TimedEvent) :
    TimedEvent × Option (List Notice) :=
  if e.isSet eventTypeEnable then
    let e := if e.xCondition = .interval then e.atInterval xTime eventList else e
    if e.bChanged then ({ e with bChanged := false }, some e.notices) else (e, none)
  else (e, none)

/-- `FTE_EVENT_check` where it finds a change: the stamp is the value's. -/
def changed (e : TimedEvent) (xTimeStamp : UInt32) : TimedEvent :=
  if e.isSet eventTypeEnable ∧ e.xCondition ≠ .interval ∧ e.xCondition ≠ .time ∧
      e.xCondition ≠ .none then
    { e with xTimeStamp, bChanged := true, bOccurred := !e.bOccurred }
  else e

/-- `FTE_EVENT_create` on cleared memory. -/
def created (pEvent : Nat) (ulEPID xType xLevel : UInt32) (xCondition : Condition)
    (ulInterval : UInt32) : TimedEvent :=
  ⟨pEvent, ulEPID, xType, xLevel, xCondition, ulInterval, false, false, 0, []⟩

end TimedEvent

structure Report where
  pEvent : Nat
  xTime : UInt32
  notices : List Notice

/-- The loop of `FTE_EVENT_task`: the events before the iterator, and those still to come. -/
def turn (xTime : UInt32) (before : List TimedEvent) :
    List TimedEvent → List TimedEvent × List Report
  | [] => (before, [])
  | e :: rest =>
    let (e', notices) := e.proc xTime (before ++ e :: rest)
    let (eventList, reports) := turn xTime (before ++ [e']) rest
    (eventList, (notices.map (⟨e.pEvent, xTime, ·⟩)).toList ++ reports)

structure Events where
  eventList : List TimedEvent
  xTime : UInt32
  sent : List Report

inductive EventAct where
  | tick (xTime : UInt32)
  | changed (pEvent : Nat) (xTimeStamp : UInt32)
  | setType (pEvent : Nat) (xType : UInt32)
  | setInterval (pEvent : Nat) (ulInterval : UInt32)
  | setObjects (pEvent : Nat) (xObjectList : List UInt32)
  | create (pEvent : Nat) (ulEPID xType xLevel : UInt32) (xCondition : Condition)
      (ulInterval : UInt32)
  | destroy (pEvent : Nat)

namespace Events

def update (s : Events) (pEvent : Nat) (f : TimedEvent → TimedEvent) : Events :=
  { s with eventList := s.eventList.map fun e => if e.pEvent = pEvent then f e else e }

/-- The turns of the task, and what other tasks do to the events in between. -/
def step (s : Events) : EventAct → Option Events
  | .tick xTime =>
    let (eventList, reports) := turn xTime [] s.eventList
    some ⟨eventList, xTime, s.sent ++ reports⟩
  | .changed p xTimeStamp => some (s.update p (·.changed xTimeStamp))
  | .setType p xType => some (s.update p ({ · with xType }))
  | .setInterval p ulInterval => some (s.update p ({ · with ulInterval }))
  | .setObjects p xObjectList => some (s.update p ({ · with xObjectList }))
  | .create p ulEPID xType xLevel xCondition ulInterval =>
    if p ∈ s.eventList.map TimedEvent.pEvent then none
    else some { s with
      eventList := s.eventList ++ [.created p ulEPID xType xLevel xCondition ulInterval] }
  | .destroy p => some { s with eventList := s.eventList.filter (·.pEvent ≠ p) }

def reports (s : Events) (p : Nat) : Nat := s.sent.countP (·.pEvent = p)

end Events

section Turns

variable {xTime : UInt32} {eventList : List TimedEvent} {e : TimedEvent}

theorem push_eq (e e2 : TimedEvent) : ∃ stamp, e.push e2 = { e with xTimeStamp := stamp } ∧
    e.xTimeStamp ≤ stamp ∧ (e.Holds e2 → e2.xTimeStamp + e.ulInterval ≤ stamp) := by
  unfold TimedEvent.push
  split
  next hholds =>
    split
    next hlt => exact ⟨_, rfl, UInt32.le_of_lt hlt, fun _ => UInt32.le_refl _⟩
    next hle => exact ⟨e.xTimeStamp, rfl, UInt32.le_refl _, fun _ => UInt32.not_lt.mp hle⟩
  next hfree => exact ⟨e.xTimeStamp, rfl, UInt32.le_refl _, fun hholds => absurd hholds hfree⟩

/-- The loop over the other events moves the stamp alone, on to where none of them holds it back. -/
theorem foldl_push (l : List TimedEvent) (e : TimedEvent) :
    ∃ stamp, l.foldl TimedEvent.push e = { e with xTimeStamp := stamp } ∧ e.xTimeStamp ≤ stamp ∧
      ∀ e2 ∈ l, e.Holds e2 → e2.xTimeStamp + e.ulInterval ≤ stamp := by
  induction l generalizing e with
  | nil => exact ⟨e.xTimeStamp, rfl, UInt32.le_refl _, fun e2 h => absurd h List.not_mem_nil⟩
  | cons e2 l ih =>
    obtain ⟨stamp, hstamp, hle, hholds⟩ := push_eq e e2
    obtain ⟨last, hlast, hlater, hrest⟩ := ih { e with xTimeStamp := stamp }
    refine ⟨last, by rw [List.foldl_cons, hstamp, hlast], UInt32.le_trans hle hlater, ?_⟩
    intro e3 hmem h
    rcases List.mem_cons.mp hmem with rfl | hmem
    · exact UInt32.le_trans (hholds h) hlater
    · exact hrest e3 hmem h

/-- `FTE_EVENT_proc` changes the stamp of an `INTERVAL` event and the mark, nothing else. -/
theorem proc_eq (xTime : UInt32) (eventList : List TimedEvent) (e : TimedEvent) :
    ∃ stamp bChanged, (e.proc xTime eventList).1 =
      { e with xTimeStamp := stamp, bChanged := bChanged } ∧
      (e.xCondition ≠ .interval → stamp = e.xTimeStamp) := by
  obtain ⟨last, hlast, -⟩ := foldl_push eventList e
  have hinterval : ∃ stamp bChanged, e.atInterval xTime eventList =
      { e with xTimeStamp := stamp, bChanged := bChanged } := by
    unfold TimedEvent.atInterval
    rw [hlast]
    split
    · exact ⟨_, _, rfl⟩
    · split
      · dsimp only
        split <;> exact ⟨_, _, rfl⟩
      · exact ⟨e.xTimeStamp, e.bChanged, rfl⟩
  obtain ⟨stamp, mark, hstamp⟩ := hinterval
  unfold TimedEvent.proc
  by_cases hcond : e.xCondition = .interval
  · rw [if_pos hcond, hstamp]
    split
    · dsimp only
      split
      · exact ⟨stamp, false, rfl, fun h => absurd hcond h⟩
      · exact ⟨stamp, mark, rfl, fun h => absurd hcond h⟩
    · exact ⟨e.xTimeStamp, e.bChanged, rfl, fun _ => rfl⟩
  · rw [if_neg hcond]
    split
    · dsimp only
      split
      · exact ⟨e.xTimeStamp, false, rfl, fun _ => rfl⟩
      · exact ⟨e.xTimeStamp, e.bChanged, rfl, fun _ => rfl⟩
    · exact ⟨e.xTimeStamp, e.bChanged, rfl, fun _ => rfl⟩

/-- An event holds an interval back in the same way before its own turn and after. -/
theorem push_proc (e e2 : TimedEvent) : e.push (e2.proc xTime eventList).1 = e.push e2 := by
  obtain ⟨stamp, mark, hproc, hstamp⟩ := proc_eq xTime eventList e2
  rw [hproc]
  by_cases hcond : e2.xCondition = .interval
  · simp [TimedEvent.push, TimedEvent.Holds, hcond]
  · rw [hstamp hcond]
    rfl

theorem foldl_push_map (l rest : List TimedEvent) (e : TimedEvent) :
    (l.map (fun e2 => (e2.proc xTime eventList).1) ++ rest).foldl TimedEvent.push e =
      (l ++ rest).foldl TimedEvent.push e := by
  rw [List.foldl_append, List.foldl_append, List.foldl_map]
  simp only [push_proc]

theorem proc_congr {l m : List TimedEvent}
    (h : l.foldl TimedEvent.push e = m.foldl TimedEvent.push e) :
    e.proc xTime l = e.proc xTime m := by
  unfold TimedEvent.proc TimedEvent.atInterval
  rw [h]

/-- A turn of the task handles every event as if the others still were as before the turn. -/
theorem turn_eq (xTime : UInt32) (l rest : List TimedEvent) :
    turn xTime (l.map fun e => (e.proc xTime (l ++ rest)).1) rest =
      ((l ++ rest).map fun e => (e.proc xTime (l ++ rest)).1,
        rest.filterMap fun e => (e.proc xTime (l ++ rest)).2.map (⟨e.pEvent, xTime, ·⟩)) := by
  induction rest generalizing l with
  | nil => simp [turn]
  | cons e rest ih =>
    have hlist : l ++ e :: rest = (l ++ [e]) ++ rest := by simp
    have hbefore : (l.map fun e2 => (e2.proc xTime (l ++ e :: rest)).1) ++
        [(e.proc xTime (l ++ e :: rest)).1] =
          (l ++ [e]).map fun e2 => (e2.proc xTime ((l ++ [e]) ++ rest)).1 := by
      rw [← hlist, List.map_append]
      rfl
    rw [turn, proc_congr (foldl_push_map l (e :: rest) e)]
    dsimp only
    rw [hbefore, ih, ← hlist, List.filterMap_cons]
    cases (e.proc xTime (l ++ e :: rest)).2 <;> rfl

end Turns

section Limits

/-- The sums that a turn forms for an event are words. -/
def Events.Fits (s : Events) (p : Nat) (xTime : UInt32) : Prop :=
  ∀ e ∈ s.eventList, e.pEvent = p → xTime.toNat + e.ulInterval.toNat < 2 ^ 32 ∧
    ∀ e2 ∈ s.eventList, e.Holds e2 → e2.xTimeStamp.toNat + e.ulInterval.toNat < 2 ^ 32

/-- The clock does not go back, no sum overflows, and the event stays, with an interval of `I` at
least. -/
def Allowed (p I : Nat) (s : Events) : EventAct → Prop
  | .tick xTime => s.xTime ≤ xTime ∧ s.Fits p xTime
  | .setInterval q ulInterval => q = p → I ≤ ulInterval.toNat
  | .destroy q => q ≠ p
  | _ => True

/-- An interval event after `k` reports, the first turn having been at `t0`. -/
structure TimedEvent.Waiting (I t0 k : Nat) (e : TimedEvent) : Prop where
  condition : e.xCondition = .interval
  interval : I ≤ e.ulInterval.toNat
  bChanged : e.bChanged = false
  due : e.xTimeStamp = 0 ∧ k = 0 ∨ t0 + (k + 1) * I ≤ e.xTimeStamp.toNat

/-- An event as it was created, with nothing reported of it. -/
structure Events.Unset (s : Events) (p I : Nat) : Prop where
  nodup : (s.eventList.map TimedEvent.pEvent).Nodup
  event : ∃ e ∈ s.eventList, e.pEvent = p ∧ e.xCondition = .interval ∧ I ≤ e.ulInterval.toNat ∧
    e.bChanged = false ∧ e.xTimeStamp = 0
  unreported : s.reports p = 0

structure Events.Limited (s : Events) (p I t0 : Nat) : Prop where
  nodup : (s.eventList.map TimedEvent.pEvent).Nodup
  event : ∃ e ∈ s.eventList, e.pEvent = p ∧ e.Waiting I t0 (s.reports p)
  limit : 0 < s.reports p → t0 + s.reports p * I < s.xTime.toNat

variable {p I t0 k : Nat} {xTime : UInt32} {s s' : Events} {e : TimedEvent}
  {eventList : List TimedEvent}

/-- What `FTE_EVENT_proc` does with a waiting event: nothing; the first setting of the stamp; or,
once it is due, the stamp is moved on to where no other event holds it back, and the event is
reported if the stamp is past even so. -/
theorem proc_cases (xTime : UInt32) (eventList : List TimedEvent) (hcond : e.xCondition = .interval)
    (hmark : e.bChanged = false) :
    e.proc xTime eventList = (e, none) ∨
    e.xTimeStamp = 0 ∧
      e.proc xTime eventList = ({ e with xTimeStamp := xTime + e.ulInterval }, none) ∨
    e.xTimeStamp ≠ 0 ∧ ∃ stamp, e.xTimeStamp ≤ stamp ∧
      (∀ e2 ∈ eventList, e.Holds e2 → e2.xTimeStamp + e.ulInterval ≤ stamp) ∧
      (e.proc xTime eventList = ({ e with xTimeStamp := stamp }, none) ∨
        stamp < xTime ∧ e.proc xTime eventList =
          ({ e with xTimeStamp := stamp + e.ulInterval }, some e.notices)) := by
  obtain ⟨stamp, hfold, hle, hholds⟩ := foldl_push eventList e
  unfold TimedEvent.proc
  rw [if_pos hcond]
  split
  next =>
    unfold TimedEvent.atInterval
    rw [hfold]
    by_cases hzero : e.xTimeStamp = 0
    · refine .inr (.inl ⟨hzero, ?_⟩)
      simp [hzero, hmark]
    · by_cases hdue : e.xTimeStamp < xTime
      · refine .inr (.inr ⟨hzero, stamp, hle, hholds, ?_⟩)
        by_cases hpast : stamp < xTime
        · refine .inr ⟨hpast, ?_⟩
          simp only [if_neg hzero, if_pos hdue, if_pos hpast, if_true, ← hmark]
          rfl
        · refine .inl ?_
          simp [hzero, hdue, hpast, hmark]
      · refine .inl ?_
        simp [hzero, hdue, hmark]
  next => exact .inl rfl

/-- Of an event with an address of its own a turn reports once at most. -/
theorem reports_turn (hnodup : (eventList.map TimedEvent.pEvent).Nodup) (he : e ∈ eventList)
    (f : TimedEvent → Option (List Notice)) :
    (eventList.filterMap fun e => (f e).map (Report.mk e.pEvent xTime ·)).countP
      (·.pEvent = e.pEvent) = if (f e).isSome then 1 else 0 := by
  induction eventList with
  | nil => cases he
  | cons e2 l ih =>
    rw [List.map_cons, List.nodup_cons] at hnodup
    rw [List.filterMap_cons]
    rcases List.mem_cons.mp he with rfl | he
    · have hrest : (l.filterMap fun e => (f e).map (Report.mk e.pEvent xTime ·)).countP
          (·.pEvent = e.pEvent) = 0 := by
        rw [List.countP_eq_zero]
        intro r hr
        obtain ⟨e3, he3, hmk⟩ := List.mem_filterMap.mp hr
        obtain ⟨n, -, rfl⟩ := Option.map_eq_some_iff.mp hmk
        simp only [decide_eq_true_eq]
        intro hsame
        exact hnodup.1 (hsame ▸ List.mem_map_of_mem he3)
      cases f e with
      | none => simpa using hrest
      | some n => simp [hrest]
    · have hne : e2.pEvent ≠ e.pEvent := by
        intro hsame
        exact hnodup.1 (hsame ▸ List.mem_map_of_mem he)
      cases f e2 with
      | none => simpa using ih hnodup.2 he
      | some n => simpa [hne] using ih hnodup.2 he

theorem step_tick (s : Events) (xTime : UInt32) : s.step (.tick xTime) = some
    ⟨s.eventList.map fun e => (e.proc xTime s.eventList).1, xTime, s.sent ++
      s.eventList.filterMap fun e => (e.proc xTime s.eventList).2.map (⟨e.pEvent, xTime, ·⟩)⟩ := by
  have hturn := turn_eq xTime [] s.eventList
  simp only [List.nil_append, List.map_nil] at hturn
  rw [Events.step, hturn]

theorem reports_tick (hnodup : (s.eventList.map TimedEvent.pEvent).Nodup) (he : e ∈ s.eventList)
    (h : s.step (.tick xTime) = some s') : s'.reports e.pEvent =
      s.reports e.pEvent + if (e.proc xTime s.eventList).2.isSome then 1 else 0 := by
  rw [step_tick] at h
  cases h
  rw [Events.reports, List.countP_append, reports_turn hnodup he]
  rfl

/-- A turn keeps an event waiting, for the next report if it reports it. -/
theorem TimedEvent.Waiting.proc (hwait : e.Waiting I t0 k) (eventList : List TimedEvent)
    (ht : t0 ≤ xTime.toNat) (hnow : 0 < k → t0 + k * I < xTime.toNat)
    (hfit : xTime.toNat + e.ulInterval.toNat < 2 ^ 32) :
    (e.proc xTime eventList).1.Waiting I t0
        (k + if (e.proc xTime eventList).2.isSome then 1 else 0) ∧
      (0 < k + (if (e.proc xTime eventList).2.isSome then 1 else 0) →
        t0 + (k + if (e.proc xTime eventList).2.isSome then 1 else 0) * I < xTime.toNat) := by
  have hadd : xTime.toNat + e.ulInterval.toNat = (xTime + e.ulInterval).toNat := by
    rw [UInt32.toNat_add, Nat.mod_eq_of_lt hfit]
  have hint := hwait.interval
  have hdue := hwait.due
  rcases proc_cases xTime eventList hwait.condition hwait.bChanged with
    hproc | ⟨hzero, hproc⟩ | ⟨hset, stamp, hle, -, hproc | ⟨hpast, hproc⟩⟩
  · rw [hproc]
    exact ⟨hwait, hnow⟩
  · rw [hproc]
    refine ⟨⟨hwait.condition, hint, hwait.bChanged, .inr ?_⟩, hnow⟩
    dsimp only
    rw [← hadd]
    rcases hdue with ⟨-, hk⟩ | hdue
    · rw [hk]
      simp only [Option.isSome_none, Bool.false_eq_true, if_false, Nat.add_zero, Nat.zero_add,
        Nat.one_mul]
      omega
    · have : e.xTimeStamp.toNat = 0 := by rw [hzero]; rfl
      simp only [Option.isSome_none, Bool.false_eq_true, if_false, Nat.add_zero]
      omega
  · rw [hproc]
    rw [UInt32.le_iff_toNat_le] at hle
    refine ⟨⟨hwait.condition, hint, hwait.bChanged, .inr ?_⟩, hnow⟩
    rcases hdue with ⟨hzero, -⟩ | hdue
    · exact absurd hzero hset
    · exact Nat.le_trans hdue hle
  · rw [hproc]
    rw [UInt32.le_iff_toNat_le] at hle
    rw [UInt32.lt_iff_toNat_lt] at hpast
    rcases hdue with ⟨hzero, -⟩ | hdue
    · exact absurd hzero hset
    · have hmore : (k + 1 + 1) * I = (k + 1) * I + I := Nat.succ_mul _ _
      refine ⟨⟨hwait.condition, hint, hwait.bChanged, .inr ?_⟩, fun _ => ?_⟩
      · dsimp only
        rw [UInt32.toNat_add, Nat.mod_eq_of_lt (by omega), Option.isSome_some, if_pos rfl, hmore]
        omega
      · simp only [Option.isSome_some, if_true]
        omega

theorem TimedEvent.proc_pEvent (xTime : UInt32) (eventList : List TimedEvent) (e : TimedEvent) :
    (e.proc xTime eventList).1.pEvent = e.pEvent := by
  obtain ⟨stamp, mark, hproc, -⟩ := proc_eq xTime eventList e
  rw [hproc]

theorem Events.Limited.tick (h : s.Limited p I t0) (ht : t0 ≤ xTime.toNat)
    (hlater : 0 < s.reports p → s.xTime ≤ xTime) (hfits : s.Fits p xTime)
    (hs : s.step (.tick xTime) = some s') : s'.Limited p I t0 := by
  obtain ⟨e, he, rfl, hwait⟩ := h.event
  have hcount := reports_tick h.nodup he hs
  have hevent := hwait.proc s.eventList ht
    (fun hk => Nat.lt_of_lt_of_le (h.limit hk) (UInt32.le_iff_toNat_le.mp (hlater hk)))
    (hfits e he rfl).1
  rw [← hcount] at hevent
  rw [step_tick] at hs
  cases hs
  refine ⟨?_, ⟨_, List.mem_map_of_mem he, e.proc_pEvent xTime s.eventList, hevent.1⟩, hevent.2⟩
  have hsame : TimedEvent.pEvent ∘ (fun e => (e.proc xTime s.eventList).1) = TimedEvent.pEvent :=
    funext fun e2 => e2.proc_pEvent xTime s.eventList
  dsimp only
  rw [List.map_map, hsame]
  exact h.nodup

/-- What another task does to one event keeps the limit, if it keeps the event of the limit
waiting. -/
theorem Events.Limited.update (h : s.Limited p I t0) {q : Nat} {f : TimedEvent → TimedEvent}
    (hp : ∀ e, (f e).pEvent = e.pEvent)
    (hw : ∀ e k, q = p → e.Waiting I t0 k → (f e).Waiting I t0 k) :
    (s.update q f).Limited p I t0 := by
  obtain ⟨e, he, hep, hwait⟩ := h.event
  refine ⟨?_, ⟨_, List.mem_map_of_mem he, ?_, ?_⟩, h.limit⟩
  · have hsame : TimedEvent.pEvent ∘ (fun e => if e.pEvent = q then f e else e) =
        TimedEvent.pEvent := by
      funext e2
      rw [Function.comp]
      split
      · exact hp e2
      · rfl
    dsimp only [Events.update]
    rw [List.map_map, hsame]
    exact h.nodup
  · split
    · exact (hp e).trans hep
    · exact hep
  · split
    next hq => exact hw e _ (hq.symm.trans hep) hwait
    next => exact hwait

theorem TimedEvent.changed_of_interval (h : e.xCondition = .interval) (xTimeStamp : UInt32) :
    e.changed xTimeStamp = e := by
  rw [TimedEvent.changed, if_neg]
  exact fun hc => hc.2.1 h

theorem TimedEvent.changed_pEvent (e : TimedEvent) (xTimeStamp : UInt32) :
    (e.changed xTimeStamp).pEvent = e.pEvent := by
  unfold TimedEvent.changed
  split <;> rfl

theorem Events.Limited.step {a : EventAct} (h : s.Limited p I t0) (ht : t0 ≤ s.xTime.toNat)
    (ha : Allowed p I s a) (hs : s.step a = some s') :
    s'.Limited p I t0 ∧ t0 ≤ s'.xTime.toNat := by
  cases a with
  | tick xTime =>
    have hnow := Nat.le_trans ht (UInt32.le_iff_toNat_le.mp ha.1)
    refine ⟨h.tick hnow (fun _ => ha.1) ha.2 hs, ?_⟩
    rw [step_tick] at hs
    cases hs
    exact hnow
  | changed q xTimeStamp =>
    cases hs
    refine ⟨h.update (fun e => e.changed_pEvent xTimeStamp) fun e k _ hwait => ?_, ht⟩
    rw [TimedEvent.changed_of_interval hwait.condition]
    exact hwait
  | setType q xType =>
    cases hs
    exact ⟨h.update (fun _ => rfl) fun e k _ w => ⟨w.condition, w.interval, w.bChanged, w.due⟩, ht⟩
  | setInterval q ulInterval =>
    cases hs
    exact ⟨h.update (fun _ => rfl) fun e k hq w => ⟨w.condition, ha hq, w.bChanged, w.due⟩, ht⟩
  | setObjects q xObjectList =>
    cases hs
    exact ⟨h.update (fun _ => rfl) fun e k _ w => ⟨w.condition, w.interval, w.bChanged, w.due⟩, ht⟩
  | create q ulEPID xType xLevel xCondition ulInterval =>
    rw [Events.step] at hs
    split at hs
    next => cases hs
    next hfresh =>
      cases hs
      obtain ⟨e, he, hep, hwait⟩ := h.event
      refine ⟨⟨?_, ⟨e, List.mem_append_left _ he, hep, hwait⟩, h.limit⟩, ht⟩
      dsimp only
      rw [List.map_append]
      exact List.nodup_append_comm.mpr (List.nodup_cons.mpr ⟨hfresh, h.nodup⟩)
  | destroy q =>
    cases hs
    obtain ⟨e, he, hep, hwait⟩ := h.event
    refine ⟨⟨h.nodup.sublist (List.filter_sublist.map _), ⟨e, ?_, hep, hwait⟩, h.limit⟩, ht⟩
    rw [List.mem_filter, decide_eq_true_eq, hep]
    exact ⟨he, fun hpq => ha hpq.symm⟩

/-- A turn that reports the event comes after the time that every event holding it back adds. -/
theorem late_of_reported (h : s.Limited p I t0) (hfits : s.Fits p xTime)
    (hs : s.step (.tick xTime) = some s') (hmore : s.reports p < s'.reports p) :
    ∀ e ∈ s.eventList, e.pEvent = p → ∀ e2 ∈ s.eventList, e.Holds e2 →
      e2.xTimeStamp.toNat + I < xTime.toNat := by
  obtain ⟨e, he, rfl, hwait⟩ := h.event
  rw [reports_tick h.nodup he hs] at hmore
  intro e' he' hsame e2 he2 hholds
  obtain rfl : e' = e := List.inj_on_of_nodup_map h.nodup he' he hsame
  obtain ⟨-, hfit⟩ := hfits e' he' rfl
  have hfit2 := hfit e2 he2 hholds
  have hint := hwait.interval
  rcases proc_cases xTime s.eventList hwait.condition hwait.bChanged with
    hproc | ⟨-, hproc⟩ | ⟨-, stamp, -, hbefore, hproc | ⟨hpast, hproc⟩⟩
  · rw [hproc] at hmore
    exact absurd hmore (Nat.lt_irrefl _)
  · rw [hproc] at hmore
    exact absurd hmore (Nat.lt_irrefl _)
  · rw [hproc] at hmore
    exact absurd hmore (Nat.lt_irrefl _)
  · have hle := UInt32.le_iff_toNat_le.mp (hbefore e2 he2 hholds)
    rw [UInt32.toNat_add, Nat.mod_eq_of_lt hfit2] at hle
    rw [UInt32.lt_iff_toNat_lt] at hpast
    omega

theorem unset_create {ulEPID xType xLevel ulInterval : UInt32}
    (hnodup : (s.eventList.map TimedEvent.pEvent).Nodup) (hsent : s.reports p = 0)
    (h : s.step (.create p ulEPID xType xLevel .interval ulInterval) = some s') :
    s'.Unset p ulInterval.toNat := by
  rw [Events.step] at h
  split at h
  next => cases h
  next hfresh =>
    cases h
    refine ⟨?_, ⟨_, List.mem_append_right _ (List.mem_singleton_self _), rfl, rfl, Nat.le_refl _, rfl,
      rfl⟩, hsent⟩
    dsimp only
    rw [List.map_append]
    exact List.nodup_append_comm.mpr (List.nodup_cons.mpr ⟨hfresh, hnodup⟩)

/-- After the first turn an interval event with an interval of `I` has been reported `k` times only
once more than `k * I` seconds have passed since, and it is reported only more than `I` seconds after
the last change of every enabled event of its endpoint that has no interval. -/
theorem interval_limits {acts : List EventAct} (hs : s.Unset p I) (hfits : s.Fits p xTime)
    (hfirst : s.step (.tick xTime) = some s')
    (hacts : ∀ u a, Takes Events.step s' acts u a → Allowed p I u a) :
    (∀ u, Visits Events.step s' acts u →
      0 < u.reports p → u.reports p * I < u.xTime.toNat - xTime.toNat) ∧
    ∀ u t v, Takes Events.step s' acts u (.tick t) → u.step (.tick t) = some v →
      u.reports p < v.reports p → ∀ e ∈ u.eventList, e.pEvent = p →
        ∀ e2 ∈ u.eventList, e.Holds e2 → e2.xTimeStamp.toNat + I < t.toNat := by
  have hunset : s.Limited p I xTime.toNat := by
    obtain ⟨e, he, hep, hcond, hint, hmark, hstamp⟩ := hs.event
    refine ⟨hs.nodup, ⟨e, he, hep, hcond, hint, hmark, .inl ⟨hstamp, hs.unreported⟩⟩, ?_⟩
    rw [hs.unreported]
    exact fun h => absurd h (Nat.lt_irrefl 0)
  have hstart : s'.Limited p I xTime.toNat ∧ xTime.toNat ≤ s'.xTime.toNat := by
    refine ⟨hunset.tick (Nat.le_refl _) (fun h => ?_) hfits hfirst, ?_⟩
    · rw [hs.unreported] at h
      exact absurd h (Nat.lt_irrefl 0)
    · rw [step_tick] at hfirst
      cases hfirst
      exact Nat.le_refl _
  have hstep : ∀ u a v, u.Limited p I xTime.toNat ∧ xTime.toNat ≤ u.xTime.toNat → Allowed p I u a →
      u.step a = some v → v.Limited p I xTime.toNat ∧ xTime.toNat ≤ v.xTime.toNat :=
    fun u a v hu ha hv => hu.1.step hu.2 ha hv
  have hinv : ∀ u, Visits Events.step s' acts u →
      u.Limited p I xTime.toNat ∧ xTime.toNat ≤ u.xTime.toNat := by
    intro u hu
    exact inv_of_takes (u := u) hstart hstep hacts hu
  constructor
  · intro u hu hk
    have hlimit := (hinv u hu).1.limit hk
    omega
  · intro u t v hu hv hmore
    obtain ⟨pre, hpre, hexec⟩ := id hu
    have hvisit : Visits Events.step s' acts u := ⟨pre, (List.prefix_append pre _).trans hpre, hexec⟩
    exact late_of_reported (hinv u hvisit).1 (hacts u _ hu).2 hv hmore

end Limits

section Runs

instance (s : Events) (p : Nat) (xTime : UInt32) : Decidable (s.Fits p xTime) := by
  unfold Events.Fits
  infer_instance

instance (p I : Nat) (s : Events) : DecidablePred (Allowed p I s)
  | .tick xTime => inferInstanceAs (Decidable (s.xTime ≤ xTime ∧ s.Fits p xTime))
  | .setInterval q ulInterval => inferInstanceAs (Decidable (q = p → I ≤ ulInterval.toNat))
  | .destroy q => inferInstanceAs (Decidable (q ≠ p))
  | .changed _ _ | .setType _ _ | .setObjects _ _ | .create _ _ _ _ _ _ => .isTrue trivial

/-- An interval of ten seconds beside an event above a limit, both of one object. -/
def twoEvents : Events :=
  ⟨[⟨0, 7, 1, 0, .interval, 10, false, false, 0, [7]⟩, ⟨1, 7, 1, 0, .above, 0, false, false, 0, [7]⟩],
    0, []⟩

/-- A change at 115 puts the second report off from 121 to 126. -/
theorem interval_limits_twoEvents :
    ∃ s u, twoEvents.step (.tick 100) = some s ∧
      exec Events.step [.tick 111, .changed 1 115, .tick 121, .tick 126] s = some u ∧
      u.reports 0 = 2 ∧ u.reports 0 * 10 < u.xTime.toNat - (100 : UInt32).toNat := by
  obtain ⟨s, hs⟩ : ∃ s, twoEvents.step (.tick 100) = some s := ⟨_, rfl⟩
  obtain ⟨u, hu, hcount⟩ : ∃ u, exec Events.step [.tick 111, .changed 1 115, .tick 121, .tick 126] s =
      some u ∧ u.reports 0 = 2 := by
    cases hs
    exact ⟨_, rfl, by decide⟩
  refine ⟨s, u, hs, hu, hcount, ?_⟩
  refine (interval_limits (p := 0) (I := 10) ⟨by decide, ⟨_, List.mem_cons_self, rfl, rfl, ?_, rfl,
    rfl⟩, rfl⟩ (by decide) hs (takes_of_along ?_)).1 u ⟨_, List.prefix_rfl, hu⟩ (by omega)
  · exact Nat.le_refl _
  · cases hs
    decide

end Runs

end EdgeNode.Obj
