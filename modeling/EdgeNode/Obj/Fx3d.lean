import EdgeNode.Json.Sizing

/-! The settings of a temperature controller FX3D: what a JSON text writes of them, and how they are
reported. -/

namespace EdgeNode.Obj.Fx3d

open Values Json

section Texts

/-- `nx_json` with its value, over the doubles `δ`; an object or an array without its items. -/
inductive Node (δ : Type) where
  | null
  | object
  | array
  | string (text_value : List Char)
  | integer (int_value : Int64)
  | double (dbl_value : δ)
  | bool (int_value : Int64)

/-- The items of a parsed text with their keys. -/
abbrev Items (δ : Type) := List (Option (List Char) × Node δ)

/-- The arithmetic of doubles: `strtod`, and hundredfolds as `FTE_INT32` and as `FTE_UINT32`. -/
structure Doubles (δ : Type) where
  strtod : List Char → δ
  int32 : δ → Int32
  uint32 : δ → UInt32

variable {δ : Type}

def Node.isNull : Node δ → Bool
  | .null => true
  | _ => false

/-- `nx_json_get` -/
def nxJsonGet (pxJSON : Items δ) (key : CString) : Node δ :=
  ((pxJSON.find? fun js => js.1 = some key.val).map Prod.snd).getD .null

/-- A setting in hundredths, `some none` if it is absent, or `none` if it has another type. -/
def hundredths {α : Type} (strtod : List Char → δ) (ofDouble : δ → α) (ofInteger : Int64 → α) :
    Node δ → Option (Option α)
  | .null => some none
  | .double dbl_value => some (some (ofDouble dbl_value))
  | .integer int_value => some (some (ofInteger (int_value * 100)))
  | .string text_value => some (some (ofDouble (strtod text_value)))
  | .object | .array | .bool _ => none

def stringTargetTemperature : CString := ⟨"targetTemperature".toList, by decide⟩
def stringCoolingDeviation : CString := ⟨"coolingDeviation".toList, by decide⟩
def stringHeatingDeviation : CString := ⟨"heatingDeviation".toList, by decide⟩

structure Settings where
  target : Option Int32
  cooling : Option UInt32
  heating : Option UInt32

def settings (d : Doubles δ) (pxJSON : Items δ) : Option Settings := do
  let target ← hundredths d.strtod d.int32 Int64.toInt32 (nxJsonGet pxJSON stringTargetTemperature)
  let deviation := hundredths d.strtod d.uint32 fun n => n.toUInt64.toUInt32
  let cooling ← deviation (nxJsonGet pxJSON stringCoolingDeviation)
  let heating ← deviation (nxJsonGet pxJSON stringHeatingDeviation)
  return ⟨target, cooling, heating⟩

end Texts

section Controllers

def modeOff : UInt32 := 0
def modeCooling : UInt32 := 1
def modeHeating : UInt32 := 2

def fieldCtrlTemp0 : UInt32 := 1
def fieldCtrl0 : UInt32 := 6
def ctrlCount : UInt32 := 2

/-- What is used of an entry of `pOutputConfigs`. -/
structure Output where
  ulMode : UInt32
  ulDeviation : UInt32

/-- The status of a controller object with its values, its outputs and whatever is behind them in the
memory, and the registers of the controller itself. -/
structure Controller where
  pValue : UInt32 → Values.Value
  pOutputConfigs : UInt32 → Output
  regs : UInt32 → UInt16

/-- A child object: whether it is of the type `FTE_OBJ_TYPE_CTRL`, and whether it has its parent. -/
structure Child where
  ctrl : Bool
  pParent : Bool
  nRegID : UInt32

def Child.nCtrlID (child : Child) : UInt32 := child.nRegID - fieldCtrl0

/-- What a call finds: whether there is the UCS, the retries, which of its requests are answered, and
what `nTargetTemperature` and the `xRet` of `FTE_DOTECH_FX3D_writeReg` hold before they are set. -/
structure Line where
  ucs : Bool
  ulRetryCount : UInt32
  answers : Nat → Bool
  nTargetTemperature : Int32
  xRet : Ret

/-- All exchanges of registers succeed. -/
structure Line.Succeeds (line : Line) : Prop where
  ucs : line.ucs = true
  ulRetryCount : line.ulRetryCount ≠ 0
  answers : ∀ k, line.answers k = true

/-- A controller in a call, with the writes that were requested of it and the indices at which
`pOutputConfigs` was accessed. -/
structure Run where
  s : Controller
  log : List (UInt32 × Int32)
  accessed : List UInt32

namespace Run

variable (r : Run)

def output (nCtrlID : UInt32) : Output × Run :=
  (r.s.pOutputConfigs nCtrlID, { r with accessed := r.accessed ++ [nCtrlID] })

def setOutput (nCtrlID : UInt32) (out : Output) : Run :=
  { r with
    s := { r.s with pOutputConfigs := Function.update r.s.pOutputConfigs nCtrlID out }
    accessed := r.accessed ++ [nCtrlID] }

/-- `FTE_UCS_MODBUS_setReg` with the lower half of `nValue`. -/
def setReg (line : Line) (ulIndex : UInt32) (nValue : Int32) : Bool × Run :=
  let ok := line.answers r.log.length
  (ok, { r with
    s := if ok then
        { r.s with regs := Function.update r.s.regs ulIndex nValue.toUInt32.toUInt16 }
      else r.s
    log := r.log ++ [(ulIndex, nValue)] })

end Run

/-- The loop of `FTE_DOTECH_FX3D_writeReg`, with the turns that are left. -/
def retry (line : Line) (ulIndex : UInt32) (nValue : Int32) : Nat → Ret → Run → Ret × Run
  | 0, xRet, r => (xRet, r)
  | turns + 1, _, r =>
    let (ok, r) := r.setReg line ulIndex nValue
    if ok then (retOk, r) else retry line ulIndex nValue turns retError r

/-- `FTE_DOTECH_FX3D_writeReg` -/
def writeReg (line : Line) (ulIndex : UInt32) (nValue : Int32) (r : Run) : Ret × Run :=
  if line.ucs then retry line ulIndex nValue line.ulRetryCount.toNat line.xRet r
  else (retObjectNotFound, r)

/-- What follows if there was no error. -/
def andThen (x : Ret × Run) (f : Run → Ret × Run) : Ret × Run := if x.1 = retOk then f x.2 else x

def writeTarget (line : Line) (nCtrlID : UInt32) (nTargetTemperature : Int32) (r : Run) : Ret × Run :=
  let nCurrentTemperature := (r.s.pValue (fieldCtrlTemp0 + nCtrlID)).xData.toInt32
  if nCurrentTemperature ≠ nTargetTemperature then
    writeReg line nCtrlID (nTargetTemperature / 10) r
  else (retOk, r)

def writeMode (line : Line) (nCtrlID ulMode : UInt32) (r : Run) : Ret × Run :=
  let (out, r) := r.output nCtrlID
  if out.ulMode ≠ ulMode then
    andThen (writeReg line (nCtrlID * 8 + 2) ulMode.toInt32 r) fun r =>
      (retOk, r.setOutput nCtrlID { r.s.pOutputConfigs nCtrlID with ulMode })
  else (retOk, r)

def writeDeviation (line : Line) (nCtrlID ulDeviation : UInt32) (r : Run) : Ret × Run :=
  andThen (writeReg line (nCtrlID * 8 + 3) (ulDeviation / 10).toInt32 r) fun r =>
    (retOk, r.setOutput nCtrlID { r.s.pOutputConfigs nCtrlID with ulDeviation })

/-- At least a tenth of a degree. -/
def atLeast (ulDeviation : UInt32) : UInt32 := if ulDeviation < 10 then 10 else ulDeviation

/-- `FTE_DOTECH_FX3D_setChildConfig` from the settings of the text on. A target that is absent is what
the variable holds. -/
def apply (line : Line) (nCtrlID : UInt32) (x : Settings) (r : Run) : Ret × Run :=
  let nTargetTemperature := x.target.getD line.nTargetTemperature
  let ulCoolingDeviation := x.cooling.getD 0
  let ulHeatingDeviation := x.heating.getD 0
  let (ulMode, ulCoolingDeviation, ulHeatingDeviation, r) :=
    if ulCoolingDeviation = 0 ∧ ulHeatingDeviation = 0 then
      let (out, r) := r.output nCtrlID
      (out.ulMode, ulCoolingDeviation, ulHeatingDeviation, r)
    else if ulCoolingDeviation ≠ 0 then
      (modeCooling, atLeast ulCoolingDeviation, ulHeatingDeviation, r)
    else (modeHeating, ulCoolingDeviation, atLeast ulHeatingDeviation, r)
  andThen (writeTarget line nCtrlID nTargetTemperature r) fun r =>
    andThen (writeMode line nCtrlID ulMode r) fun r =>
      if ulMode = modeCooling ∧ ulCoolingDeviation ≠ 0 then
        writeDeviation line nCtrlID ulCoolingDeviation r
      else if ulMode = modeHeating ∧ ulHeatingDeviation ≠ 0 then
        writeDeviation line nCtrlID ulHeatingDeviation r
      else (retOk, r)

/-- `FTE_DOTECH_FX3D_setChildConfig`, with the parser of the texts. The index that the controller has no
output for is let through. -/
def setChildConfig {δ : Type} (d : Doubles δ) (parse : List Char → Option (Items δ)) (line : Line)
    (child : Child) (pBuff : List Char) (s : Controller) : Ret × Run :=
  match parse pBuff with
  | none => (retError, ⟨s, [], []⟩)
  | some pxJSON =>
    if child.ctrl ∧ child.pParent then
      if child.nCtrlID > ctrlCount then (retError, ⟨s, [], []⟩)
      else
        match settings d pxJSON with
        | none => (retError, ⟨s, [], []⟩)
        | some x => apply line child.nCtrlID x ⟨s, [], []⟩
    else (retError, ⟨s, [], []⟩)

/-- `FTE_JSON_OBJECT_setPair`; a pair that finds no slot is lost. -/
def setPair (nMaxCount : Nat) (pPairs : List (CString × Int32)) (pString : CString) (nValue : Int32) :
    List (CString × Int32) :=
  if pPairs.length < nMaxCount then pPairs ++ [(pString, nValue)] else pPairs

def pairSlots : List (CString × Int32) → Slots
  | [] => .nil
  | (pString, nValue) :: pairs => .cons (.pair pString (.float nValue)) (pairSlots pairs)

/-- The object of an output as `FTE_DOTECH_FX3D_getChildConfig` fills it. In the mode of cooling it sets
the deviations twice. -/
def configPairs (nValue : Int32) (out : Output) : List (CString × Int32) :=
  let pairs := setPair 3 [] stringTargetTemperature nValue
  let pairs :=
    if out.ulMode = modeCooling then
      let pairs := setPair 3 pairs stringCoolingDeviation out.ulDeviation.toInt32
      setPair 3 pairs stringHeatingDeviation 0
    else pairs
  if out.ulMode = modeHeating then
    let pairs := setPair 3 pairs stringCoolingDeviation 0
    setPair 3 pairs stringHeatingDeviation out.ulDeviation.toInt32
  else
    let pairs := setPair 3 pairs stringCoolingDeviation 0
    setPair 3 pairs stringHeatingDeviation 0

/-- `FTE_DOTECH_FX3D_getChildConfig`, with the object whose text is left in the buffer; `answered` says
whether there is the UCS and the register is read, and `alloc` whether there is memory. -/
def getChildConfig (child : Child) (answered alloc : Bool) (ulBuffLen : UInt32) (s : Controller) :
    Ret × Option Json.Tree × Controller :=
  if child.ctrl ∧ child.pParent then
    let nCtrlID := child.nCtrlID
    if nCtrlID ≥ ctrlCount then (retInvalidId, none, s)
    else if answered then
      let field := fieldCtrlTemp0 + nCtrlID
      let nValue := (s.regs nCtrlID).toInt16.toInt32 * 10
      let s := { s with
        pValue := Function.update s.pValue field (accept (s.pValue field) nValue.toUInt32).2 }
      if alloc then
        let object :=
          .object (pairSlots (configPairs (s.pValue field).xData.toInt32 (s.pOutputConfigs nCtrlID)))
        if buffSize object ≥ ulBuffLen.toNat then (retError, none, s)
        else (retOk, some object, s)
      else (retNotEnoughMemory, none, s)
    else (retError, none, s)
  else (retError, none, s)

end Controllers

section Specification

/-- The settings of an output as they are reported: hundredths of degrees and a mode. -/
structure Told where
  target : Int32
  ulMode : UInt32
  deviation : Int32

/-- The settings of a controller: its target is that of its register. -/
def told (s : Controller) (nCtrlID : UInt32) : Told :=
  ⟨(s.regs nCtrlID).toInt16.toInt32 * 10, (s.pOutputConfigs nCtrlID).ulMode,
    (s.pOutputConfigs nCtrlID).ulDeviation.toInt32⟩

/-- Each key once. -/
def Told.pairs (x : Told) : List (CString × Int32) :=
  [(stringTargetTemperature, x.target),
    (stringCoolingDeviation, if x.ulMode = modeCooling then x.deviation else 0),
    (stringHeatingDeviation, if x.ulMode = modeHeating then x.deviation else 0)]

def Told.object (x : Told) : Json.Tree := .object (pairSlots x.pairs)

/-- The value that was written to a register. -/
def written (log : List (UInt32 × Int32)) (ulIndex : UInt32) : Option Int32 :=
  (log.find? fun req => req.1 = ulIndex).map Prod.snd

/-- The settings behind the writes of tenths of degrees and of a mode. -/
def Told.after (x : Told) (nCtrlID : UInt32) (log : List (UInt32 × Int32)) : Told where
  target := ((written log nCtrlID).map (· * 10)).getD x.target
  ulMode := ((written log (nCtrlID * 8 + 2)).map Int32.toUInt32).getD x.ulMode
  deviation := ((written log (nCtrlID * 8 + 3)).map (· * 10)).getD x.deviation

/-- The deviation that settings ask for, 0 for none. -/
def Settings.deviation (x : Settings) : UInt32 :=
  if x.cooling.getD 0 ≠ 0 then atLeast (x.cooling.getD 0)
  else if x.heating.getD 0 ≠ 0 then atLeast (x.heating.getD 0)
  else 0

def Settings.mode (x : Settings) (ulMode : UInt32) : UInt32 :=
  if x.cooling.getD 0 ≠ 0 then modeCooling
  else if x.heating.getD 0 ≠ 0 then modeHeating
  else ulMode

def current (s : Controller) (nCtrlID : UInt32) : Int32 :=
  (s.pValue (fieldCtrlTemp0 + nCtrlID)).xData.toInt32

/-- The settings as they are to be afterwards, for the target `t`. -/
def Settings.wanted (x : Settings) (s : Controller) (nCtrlID : UInt32) (t : Int32) : Told where
  target := if current s nCtrlID ≠ t then t / 10 * 10 else (told s nCtrlID).target
  ulMode := x.mode (told s nCtrlID).ulMode
  deviation := if x.deviation ≠ 0 then x.deviation.toInt32 else (told s nCtrlID).deviation

/-- No number has a negative fraction, which would be printed with a second sign. -/
def Told.Readable (x : Told) : Prop := ∀ pair ∈ x.pairs, 0 ≤ pair.2.toInt ∨ pair.2.toInt.tmod 100 = 0

variable {δ : Type}

def Present (pxJSON : Items δ) (key : CString) : Prop := (nxJsonGet pxJSON key).isNull = false

/-- A register of the output whose setting is present in the text. -/
def Asked (pxJSON : Items δ) (nCtrlID ulIndex : UInt32) : Prop :=
  ulIndex = nCtrlID ∧ Present pxJSON stringTargetTemperature ∨
    (ulIndex = nCtrlID * 8 + 2 ∨ ulIndex = nCtrlID * 8 + 3) ∧
      (Present pxJSON stringCoolingDeviation ∨ Present pxJSON stringHeatingDeviation)

variable (d : Doubles δ) (parse : List Char → Option (Items δ)) (child : Child) (pBuff : List Char)
  (s : Controller)

/-- Whatever a call finds, it stays within `pOutputConfigs` and writes what the text has; and if its
exchanges succeed and it returns `FTE_RET_OK`, the settings that were written and the others as they were
are reported, in a text that stands for them. -/
structure Keeps : Prop where
  bounded : ∀ line, ∀ i ∈ (setChildConfig d parse line child pBuff s).2.accessed, i < ctrlCount
  asked : ∀ line, ∀ req ∈ (setChildConfig d parse line child pBuff s).2.log,
    ∃ pxJSON, parse pBuff = some pxJSON ∧ Asked pxJSON child.nCtrlID req.1
  reported : ∀ line r, line.Succeeds → setChildConfig d parse line child pBuff s = (retOk, r) →
    ∀ ulBuffLen, buffSize ((told s child.nCtrlID).after child.nCtrlID r.log).object < ulBuffLen.toNat →
      (getChildConfig child true true ulBuffLen r.s).1 = retOk ∧
      (getChildConfig child true true ulBuffLen r.s).2.1 =
        some ((told s child.nCtrlID).after child.nCtrlID r.log).object ∧
      Decodes ((told s child.nCtrlID).after child.nCtrlID r.log).object

/-- Settings that are taken are those of an output that there is and have a target; the target can be held
by its register, unless it is the current one, the deviation is one of whole tenths, and what is to be
reported can be read. -/
def Sound : Prop :=
  ∀ pxJSON x, parse pBuff = some pxJSON → child.ctrl = true → child.pParent = true →
    child.nCtrlID ≤ ctrlCount → settings d pxJSON = some x →
      child.nCtrlID ≠ ctrlCount ∧ ∃ t, x.target = some t ∧
        (current s child.nCtrlID ≠ t → -2 ^ 15 ≤ (t / 10).toInt ∧ (t / 10).toInt < 2 ^ 15) ∧
        x.deviation % 10 = 0 ∧ (x.wanted s child.nCtrlID t).Readable

end Specification

end EdgeNode.Obj.Fx3d
