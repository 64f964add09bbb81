import EdgeNode.Types

/-! Events on the value of an object: `FTE_EVENT_check`. -/

namespace EdgeNode.Obj

def retInvalidParameter : Ret := 0x0C

def eventTypeEnable : UInt32 := 1

inductive Condition where
  | none
  | above
  | below
  | inside
  | outside
  | interval
  | time
  | changed
deriving DecidableEq

structure Limit where
  nValue : Int32
  ulThreshold : UInt32

structure Range where
  nUpper : Int32
  nLower : Int32
  ulThreshold : UInt32

/-- What `FTE_EVENT_check` reads of `FTE_EVENT_CONFIG`. -/
structure EventConfig where
  xType : UInt32
  xCondition : Condition
  xLimit : Limit
  xRange : Range
  ulHoldTime : UInt16

/-- What `FTE_EVENT_check` reads and writes of `FTE_EVENT_STATE`. -/
structure EventState (τ : Type) where
  bOccurred : Bool
  bChanged : Bool
  xTimeStamp : τ

inductive ValueType where
  | ulong
  | bool
  | temperature
  | humidity
  | ppm
  | dio
  | voltage
  | current
  | pressure
  | led
  | pwrKwh
  | pwrKw
  | hex32
  | ph
  | mm

/-- `FTE_VALUE`, its data as the signed word. -/
structure Value (τ : Type) where
  xType : ValueType
  bValid : Bool
  bChanged : Bool
  ulFailCount : UInt32
  nValue : Int32
  xTimeStamp : τ

def EventConfig.enabled (cfg : EventConfig) : Bool := cfg.xType &&& eventTypeEnable == eventTypeEnable

/-- The comparisons of the four conditions on a value. A limit is added to its threshold as words,
and the sum is compared with the value as a word. -/
def EventConfig.crossed (cfg : EventConfig) (bOccurred : Bool) (nValue : Int32) : Bool :=
  match cfg.xCondition with
  | .above =>
    if bOccurred then nValue.toUInt32 < cfg.xLimit.nValue.toUInt32 - cfg.xLimit.ulThreshold
    else cfg.xLimit.nValue ≤ nValue
  | .below =>
    if bOccurred then cfg.xLimit.nValue.toUInt32 + cfg.xLimit.ulThreshold < nValue.toUInt32
    else cfg.xLimit.nValue ≥ nValue
  | .inside =>
    if bOccurred then
      cfg.xRange.nUpper.toUInt32 + cfg.xRange.ulThreshold < nValue.toUInt32 ||
        cfg.xRange.nLower.toUInt32 - cfg.xRange.ulThreshold > nValue.toUInt32
    else cfg.xRange.nUpper ≥ nValue && cfg.xRange.nLower ≤ nValue
  | .outside =>
    if bOccurred then
      cfg.xRange.nUpper.toUInt32 - cfg.xRange.ulThreshold > nValue.toUInt32 &&
        cfg.xRange.nLower.toUInt32 + cfg.xRange.ulThreshold < nValue.toUInt32
    else cfg.xRange.nUpper ≤ nValue || cfg.xRange.nLower ≥ nValue
  | _ => false

/-- The way out of `FTE_EVENT_check` with `bChanged` set. -/
def EventState.change {τ : Type} (e : EventState τ) (xTimeStamp : τ) : EventState τ :=
  { bOccurred := !e.bOccurred, bChanged := true, xTimeStamp }

section Check

variable {τ : Type} (diffMilliseconds : τ → τ → Int32)

/-- An event that occurred less than its hold time ago is left alone. -/
def EventState.held (e : EventState τ) (xCurrentTime : τ) (ulHoldTime : UInt16) : Bool :=
  e.bOccurred && (diffMilliseconds xCurrentTime e.xTimeStamp).toInt ≤ ulHoldTime.toNat

/-- `FTE_EVENT_check` of an object's value: the event and the value after it. The check of a
`CHANGED` event takes the value's mark away. -/
def check (xCurrentTime : τ) (cfg : EventConfig) (e : EventState τ) (value : Value τ) :
    Ret × EventState τ × Value τ :=
  if !cfg.enabled || cfg.xCondition == .interval || cfg.xCondition == .time then (retOk, e, value)
  else if e.held diffMilliseconds xCurrentTime cfg.ulHoldTime then (retOk, e, value)
  else match cfg.xCondition with
    | .changed =>
      if value.bChanged then (retOk, e.change value.xTimeStamp, { value with bChanged := false })
      else (retOk, e, value)
    | .none => (retInvalidParameter, e, value)
    | _ =>
      if cfg.crossed e.bOccurred value.nValue then (retOk, e.change value.xTimeStamp, value)
      else (retOk, e, value)

end Check

end EdgeNode.Obj
