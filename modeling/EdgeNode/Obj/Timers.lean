import EdgeNode.Lib.Handles
import EdgeNode.Lib.Runs
import EdgeNode.Types

/-! The MQX timers that temperature sensors, sensor units and interface objects start for
themselves. -/

namespace EdgeNode.Obj

open Handles Runs

/-- The handles in the status of an object. -/
inductive TimerSlot where
  | hRepeatTimer
  | hConvertTimer
  deriving DecidableEq

/-- What of `FTE_GUS_MODEL_INFO` decides about timers: whether the model runs by itself, and whether
it has a request to send. -/
structure ModelInfo where
  fRun : Bool
  fRequest : Bool

inductive TimedDriver where
  | ds18b20
  | gus (pModelInfo : ModelInfo)
  | ifce

section Drivers

variable {ο : Type} [DecidableEq ο]

/-! A handle of zero is cancelled without effect: some of the functions test for it, and some leave
that to `_timer_cancel`. -/

section Ds18b20

variable (t : Timers ο TimerSlot) (pObj : ο)

def ds18b20Run (isValid : Bool) (xRepeat xConvert : Nat) : Option (Ret × Timers ο TimerSlot) :=
  if isValid then do
    let t ← t.start pObj .hRepeatTimer xRepeat
    let t ← t.start pObj .hConvertTimer xConvert
    some (retOk, t)
  else some (retError, t)

def ds18b20Stop : Ret × Timers ο TimerSlot :=
  (retOk, (t.cancel pObj .hRepeatTimer).cancel pObj .hConvertTimer)

def ds18b20RestartConvert (enabled : Bool) (xConvert : Nat) : Option (Timers ο TimerSlot) :=
  if enabled then t.start pObj .hConvertTimer xConvert else some (t.cancel pObj .hRepeatTimer)

def ds18b20Done : Timers ο TimerSlot := t.clear pObj .hConvertTimer

end Ds18b20

section Gus

variable (t : Timers ο TimerSlot) (pObj : ο)

/-- `FTE_OBJ_runLoop` and `FTE_OBJ_runMeasurement`: without a timer the handle stays. -/
def runTimer (pTimerID : TimerSlot) (xTimerID : Nat) : Option (Ret × Timers ο TimerSlot) :=
  if xTimerID ≠ 0 then (t.start pObj pTimerID xTimerID).map fun t => (retOk, t)
  else some (retError, t)

def gusStartMeasurement (pModelInfo : ModelInfo) (xConvert : Nat) :
    Option (Ret × Timers ο TimerSlot) :=
  if pModelInfo.fRequest then runTimer t pObj .hConvertTimer xConvert
  else some (retNotSupportedFunction, t)

/-- `FTE_GUS_run`; `own` is what a model that runs by itself returns. -/
def gusRun (pModelInfo : ModelInfo) (own : Ret) (xRepeat xConvert : Nat) :
    Option (Ret × Timers ο TimerSlot) :=
  if pModelInfo.fRun then some (own, t)
  else do
    let t := (t.cancel pObj .hConvertTimer).cancel pObj .hRepeatTimer
    let (_, t) ← gusStartMeasurement t pObj pModelInfo xConvert
    runTimer t pObj .hRepeatTimer xRepeat

def gusStop (pModelInfo : ModelInfo) (own : Ret) : Ret × Timers ο TimerSlot :=
  if pModelInfo.fRun then (own, t)
  else (retOk, (t.cancel pObj .hConvertTimer).cancel pObj .hRepeatTimer)

def gusRestartConvert (pModelInfo : ModelInfo) (own : Ret) (enabled : Bool) (xConvert : Nat) :
    Option (Timers ο TimerSlot) :=
  if enabled then (gusStartMeasurement t pObj pModelInfo xConvert).map fun r => r.2
  else some (gusStop t pObj pModelInfo own).2

/-- `FTE_GUS_done`, which leaves the handle of the timer that fired. -/
def gusDone : Timers ο TimerSlot := t

end Gus

section Ifce

variable (t : Timers ο TimerSlot) (pObj : ο)

def ifceRun (xRepeat : Nat) : Option (Ret × Timers ο TimerSlot) :=
  ((t.cancel pObj .hRepeatTimer).start pObj .hRepeatTimer xRepeat).map fun t => (retOk, t)

def ifceStop : Ret × Timers ο TimerSlot := (retOk, t.cancel pObj .hRepeatTimer)

def ifceRestartConvert (enabled : Bool) : Timers ο TimerSlot :=
  if enabled then t else t.cancel pObj .hRepeatTimer

end Ifce

namespace TimedDriver

variable (d : TimedDriver) (t : Timers ο TimerSlot) (pObj : ο)

/-- What `f_attach` does: an interface object that is enabled and not synchronous runs at once. -/
def attach (xRepeat : Option Nat) : Option (Timers ο TimerSlot) :=
  match d, xRepeat with
  | ifce, some xRepeat => (ifceRun t pObj xRepeat).map fun r => r.2
  | _, _ => some t

def run (isValid : Bool) (own : Ret) (xRepeat xConvert : Nat) : Option (Ret × Timers ο TimerSlot) :=
  match d with
  | ds18b20 => ds18b20Run t pObj isValid xRepeat xConvert
  | gus pModelInfo => gusRun t pObj pModelInfo own xRepeat xConvert
  | ifce => ifceRun t pObj xRepeat

def stop (own : Ret) : Ret × Timers ο TimerSlot :=
  match d with
  | ds18b20 => ds18b20Stop t pObj
  | gus pModelInfo => gusStop t pObj pModelInfo own
  | ifce => ifceStop t pObj

/-- The repeat timer fires. -/
def restartConvert (own : Ret) (enabled : Bool) (xConvert : Nat) : Option (Timers ο TimerSlot) :=
  match d with
  | ds18b20 => ds18b20RestartConvert t pObj enabled xConvert
  | gus pModelInfo => gusRestartConvert t pObj pModelInfo own enabled xConvert
  | ifce => some (ifceRestartConvert t pObj enabled)

/-- The conversion timer fires; interface objects have none. -/
def done : Timers ο TimerSlot :=
  match d with
  | ds18b20 => ds18b20Done t pObj
  | gus _ => gusDone t
  | ifce => t

/-- What `f_detach` does to the timers. -/
def detach : Timers ο TimerSlot :=
  match d with
  | ds18b20 => (ds18b20Stop t pObj).2
  | gus _ | ifce => t

end TimedDriver

end Drivers

section System

variable {ο : Type} [DecidableEq ο]

structure TimedObject where
  driver : TimedDriver
  nInterval : UInt32

/-- The timers, the live objects, and of which of them the last call of the driver was a stop that
returned `FTE_RET_OK`. -/
structure TimerSystem (ο : Type) where
  timers : Timers ο TimerSlot
  objects : ο → Option TimedObject
  stopped : ο → Bool

inductive TimerAction (ο : Type) where
  /-- With a timer for an interface object that runs when it is attached. -/
  | create (pObj : ο) (driver : TimedDriver) (nInterval : UInt32) (xRepeat : Option Nat)
  | run (pObj : ο) (isValid : Bool) (own : Ret) (xRepeat xConvert : Nat)
  | stop (pObj : ο) (own : Ret)
  | setInterval (pObj : ο) (nInterval : UInt32)
  | destroy (pObj : ο) (own : Ret)
  | fire (xTimerID : Nat) (own : Ret) (enabled : Bool) (xConvert : Nat)

namespace TimerSystem

def start : TimerSystem ο := ⟨⟨fun _ => none, fun _ _ => 0, false⟩, fun _ => none, fun _ => false⟩

def step (s : TimerSystem ο) : TimerAction ο → Option (TimerSystem ο)
  | .create pObj driver nInterval xRepeat =>
    match s.objects pObj with
    | some _ => none
    | none => do
      let t := (s.timers.clear pObj .hRepeatTimer).clear pObj .hConvertTimer
      let t ← driver.attach t pObj xRepeat
      some ⟨t, Function.update s.objects pObj (some ⟨driver, nInterval⟩),
        Function.update s.stopped pObj false⟩
  | .run pObj isValid own xRepeat xConvert => do
    let obj ← s.objects pObj
    let (_, t) ← obj.driver.run s.timers pObj isValid own xRepeat xConvert
    some { s with timers := t, stopped := Function.update s.stopped pObj false }
  | .stop pObj own => do
    let obj ← s.objects pObj
    let (xRet, t) := obj.driver.stop s.timers pObj own
    some { s with timers := t, stopped := Function.update s.stopped pObj (xRet == retOk) }
  | .setInterval pObj nInterval => do
    let obj ← s.objects pObj
    some { s with objects := Function.update s.objects pObj (some { obj with nInterval }) }
  | .destroy pObj own => do
    let obj ← s.objects pObj
    let (_, t) := obj.driver.stop s.timers pObj own
    some ⟨obj.driver.detach t pObj, Function.update s.objects pObj none,
      Function.update s.stopped pObj false⟩
  | .fire xTimerID own enabled xConvert => do
    let (pObj, slot) ← s.timers.pending xTimerID
    let obj ← s.objects pObj
    match slot with
    | .hRepeatTimer =>
      let t ← obj.driver.restartConvert s.timers pObj own enabled xConvert
      some { s with timers := t }
    | .hConvertTimer =>
      some { s with timers := obj.driver.done (s.timers.expire xTimerID) pObj }

/-- No stray cancel was made, and an object that is stopped, or was freed, has no pending timer. -/
structure NoneOutlives (s : TimerSystem ο) : Prop where
  stray : s.timers.stray = false
  stopped : ∀ o, s.stopped o = true → ∀ id k, s.timers.pending id ≠ some (o, k)
  freed : ∀ o, s.objects o = none → ∀ id k, s.timers.pending id ≠ some (o, k)

end TimerSystem

end System

end EdgeNode.Obj
