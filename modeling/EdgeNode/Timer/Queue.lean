import EdgeNode.Lib.DeltaList
import EdgeNode.Lib.Runs
import Mathlib.Logic.Function.Basic

/-! The software timers: a list of the started ones on one hardware timer, each with the time it
has left after the one before it. -/

namespace EdgeNode.Timer

/-- A started timer as the list holds it. -/
structure Entry where
  timer : Nat
  ulTimestamp : UInt32
  bIsRunning : Bool

/-- The list from `pTimerListHead` on, the `ulReloadValue` of each timer and the milliseconds since
boot; as ghosts, when each started timer is due and when the head was last set, in microseconds. -/
structure Timers where
  clock : Nat
  list : List Entry
  reload : Nat → UInt32
  due : Nat → Option Nat
  base : Nat

inductive Action where
  | wait (ms : Nat)
  | start (timer : Nat)
  | stop (timer : Nat)
  | setValue (timer : Nat) (ulValue : UInt32)
  | handler

def now (s : Timers) : Nat := s.clock * 1000

/-- `FTE_TIMER_getValue` gives the time since boot, cut to a word. -/
def getValue (s : Timers) : UInt32 := UInt32.ofNat (s.clock * 1000)

def timerExists (timer : Nat) (l : List Entry) : Bool := l.any fun e => e.timer = timer

/-- What the head has left. -/
def remainingTime (value : UInt32) (h : Entry) : UInt32 :=
  if h.bIsRunning then
    h.ulTimestamp - if value > h.ulTimestamp then h.ulTimestamp else value
  else h.ulTimestamp

/-- The loop of `FTE_TIMER_insertTimer`, from behind an element that is reached after
`aggregated`. -/
def insertTimer (timer : Nat) (ulTimestamp aggregated : UInt32) : List Entry → List Entry
  | [] => [⟨timer, ulTimestamp - aggregated, false⟩]
  | c :: l =>
    if aggregated + c.ulTimestamp > ulTimestamp then
      ⟨timer, ulTimestamp - aggregated, false⟩ ::
        { c with ulTimestamp := c.ulTimestamp - (ulTimestamp - aggregated) } :: l
    else c :: insertTimer timer ulTimestamp (aggregated + c.ulTimestamp) l

/-- The element that follows takes over the time that a stopped one had left. -/
def takeOver (ulRemainingTime : UInt32) : List Entry → List Entry
  | [] => []
  | n :: l => { n with ulTimestamp := n.ulTimestamp + ulRemainingTime } :: l

/-- The loop of `FTE_TIMER_stop` behind the head. -/
def removeTimer (timer : Nat) : List Entry → List Entry
  | [] => []
  | c :: l => if c.timer = timer then takeOver c.ulTimestamp l else c :: removeTimer timer l

def setHead : List Entry → List Entry
  | [] => []
  | h :: l => { h with bIsRunning := true } :: l

/-- `FTE_TIMER_stop` of the head `h`, which `l` follows. -/
def dropHead (value : UInt32) (h : Entry) (l : List Entry) : List Entry :=
  let l := takeOver (remainingTime value h) l
  if h.bIsRunning then setHead l else l

def start (timer : Nat) (s : Timers) : Timers :=
  if timerExists timer s.list then s else
  let due := Function.update s.due timer (some (now s + (s.reload timer).toNat))
  match s.list with
  | [] => { s with list := [⟨timer, s.reload timer, true⟩], due, base := now s }
  | h :: l =>
    let remaining := remainingTime (getValue s) h
    if s.reload timer < remaining then
      { s with
        list := ⟨timer, s.reload timer, true⟩ ::
          { h with ulTimestamp := remaining - s.reload timer, bIsRunning := false } :: l
        due, base := now s }
    else { s with list := h :: insertTimer timer (s.reload timer) remaining l, due }

def stop (timer : Nat) (s : Timers) : Timers :=
  let due := Function.update s.due timer none
  match s.list with
  | [] => { s with due }
  | h :: l =>
    if h.timer = timer then { s with list := dropHead (getValue s) h l, due, base := now s }
    else { s with list := h :: removeTimer timer l, due }

/-- The minimal value is a millisecond. -/
def setValue (timer : Nat) (ulValue : UInt32) (s : Timers) : Timers :=
  let s := stop timer s
  { s with reload := Function.update s.reload timer (if ulValue < 1000 then 1000 else ulValue) }

/-- The list as `FTE_TIMER_handler` counts its head down. -/
def elapse (value : UInt32) : List Entry → List Entry
  | [] => []
  | h :: l =>
    { h with ulTimestamp := if value > h.ulTimestamp then 0 else h.ulTimestamp - value } :: l

/-- The timers that the handler calls back, in their order. -/
def called (s : Timers) : List Nat :=
  ((elapse (getValue s) s.list).takeWhile fun e => e.ulTimestamp = 0).map Entry.timer

def handler (s : Timers) : Timers :=
  { s with
    list := setHead ((elapse (getValue s) s.list).dropWhile fun e => e.ulTimestamp = 0)
    due := fun e => (s.due e).filter fun d => now s < d
    base := now s }

def step (s : Timers) : Action → Option Timers
  | .wait ms => some { s with clock := s.clock + ms }
  | .start timer => some (start timer s)
  | .stop timer => some (stop timer s)
  | .setValue timer ulValue => some (setValue timer ulValue s)
  | .handler => some (handler s)

/-- The list as a delta list over the naturals. -/
def deltas (l : List Entry) : List (Nat × Nat) := l.map fun e => (e.timer, e.ulTimestamp.toNat)

@[simp] theorem deltas_nil : deltas [] = [] := rfl

@[simp] theorem deltas_cons (e : Entry) (l : List Entry) :
    deltas (e :: l) = (e.timer, e.ulTimestamp.toNat) :: deltas l := rfl

@[simp] theorem deltas_setHead (l : List Entry) : deltas (setHead l) = deltas l := by
  cases l <;> rfl

theorem deltas_keys (l : List Entry) : (deltas l).map Prod.fst = l.map Entry.timer := by
  simp [deltas]

theorem timerExists_iff {timer : Nat} {l : List Entry} :
    timerExists timer l = true ↔ timer ∈ (deltas l).map Prod.fst := by
  simp [timerExists, deltas_keys]

theorem toNat_add_of_lt {a b : UInt32} (h : a.toNat + b.toNat < 2 ^ 32) :
    (a + b).toNat = a.toNat + b.toNat := by
  rw [UInt32.toNat_add, Nat.mod_eq_of_lt h]

/-- While no time overflows, the insertion is the one of a delta list. -/
theorem deltas_insertTimer {timer : Nat} {t agg : UInt32} {l : List Entry} (hle : agg ≤ t)
    (hl : ∀ x ∈ DeltaList.times agg.toNat (deltas l), x.2 < 2 ^ 32) :
    deltas (insertTimer timer t agg l) =
      DeltaList.insert timer (t.toNat - agg.toNat) (deltas l) := by
  induction l generalizing agg with
  | nil => simp [insertTimer, DeltaList.insert, UInt32.toNat_sub_of_le _ _ hle]
  | cons c l ih =>
    have hc : (agg + c.ulTimestamp).toNat = agg.toNat + c.ulTimestamp.toNat :=
      toNat_add_of_lt (hl (c.timer, agg.toNat + c.ulTimestamp.toNat) (by simp))
    have hle' := UInt32.le_iff_toNat_le.mp hle
    rw [insertTimer, deltas_cons, DeltaList.insert]
    by_cases h : agg + c.ulTimestamp > t
    · have hlt := UInt32.lt_iff_toNat_lt.mp h
      rw [hc] at hlt
      have hsub : (t - agg).toNat = t.toNat - agg.toNat := UInt32.toNat_sub_of_le _ _ hle
      have hd : t - agg ≤ c.ulTimestamp := by
        rw [UInt32.le_iff_toNat_le, hsub]
        omega
      rw [if_pos h, if_pos (by omega)]
      simp [hsub, UInt32.toNat_sub_of_le _ _ hd]
    · have hge : agg + c.ulTimestamp ≤ t := UInt32.not_lt.mp h
      have hge' := UInt32.le_iff_toNat_le.mp hge
      rw [hc] at hge'
      rw [if_neg h, if_neg (by omega), deltas_cons, ih hge, hc, Nat.sub_sub]
      rw [hc]
      exact fun x hx => hl x (List.mem_cons_of_mem _ hx)

theorem deltas_takeOver {t : UInt32} {b : Nat} {l : List Entry}
    (hl : ∀ x ∈ DeltaList.times (b + t.toNat) (deltas l), x.2 < b + 2 ^ 32) :
    deltas (takeOver t l) = DeltaList.delay t.toNat (deltas l) := by
  cases l with
  | nil => rfl
  | cons n l =>
    have hn := hl (n.timer, b + t.toNat + n.ulTimestamp.toNat) (by simp)
    have ha : (n.ulTimestamp + t).toNat = n.ulTimestamp.toNat + t.toNat :=
      toNat_add_of_lt (by omega)
    simp [takeOver, DeltaList.delay, ha]

theorem deltas_removeTimer {timer b : Nat} {l : List Entry}
    (hl : ∀ x ∈ DeltaList.times b (deltas l), x.2 < b + 2 ^ 32) :
    deltas (removeTimer timer l) = DeltaList.remove timer (deltas l) := by
  induction l generalizing b with
  | nil => rfl
  | cons c l ih =>
    rw [removeTimer, deltas_cons, DeltaList.remove]
    by_cases h : c.timer = timer
    · rw [if_pos h, if_pos h]
      exact deltas_takeOver fun x hx => hl x (List.mem_cons_of_mem _ hx)
    · rw [if_neg h, if_neg h, deltas_cons]
      congr 1
      refine ih (b := b + c.ulTimestamp.toNat) fun x hx => ?_
      have hx' := hl x (List.mem_cons_of_mem _ hx)
      omega

end EdgeNode.Timer
