import EdgeNode.Lib.Runs
import EdgeNode.Obj.Event

/-! How a change of an object's value reaches its `CHANGED` events: the setters, the three drivers
and the passes of `FTE_TASK_objectManagement`. -/

namespace EdgeNode.Obj

open Runs

section Values

variable {τ : Type}

/-- `FTE_VALUE_setValid`: the third failure in a row makes a value invalid. -/
def Value.setValid (value : Value τ) (bValid : Bool) : Value τ :=
  if bValid then { value with ulFailCount := 0, bValid := true }
  else
    let ulFailCount := value.ulFailCount + 1
    { value with ulFailCount, bValid := value.bValid && ulFailCount < 3 }

/-- The setters of `fte_value.c`: the mark is that of the last write alone. -/
def Value.set (value : Value τ) (nValue : Int32) (now : τ) : Value τ :=
  { value.setValid true with bChanged := value.nValue != nValue, nValue, xTimeStamp := now }

/-- `FTE_VALUE_equal`, by the type of the first value. -/
def Value.equal (value₁ value₂ : Value τ) : Bool :=
  match value₁.xType with
  | .bool => false
  | _ => value₁.nValue == value₂.nValue

end Values

/-- The driver of an object, with what `FTE_DI_update` reads of its configuration. -/
inductive Driver where
  | di (ulDelay ulHold : UInt32)
  | ifce
  | ds18b20

structure Event (τ : Type) where
  pConfig : EventConfig
  xState : EventState τ

/-- An object and the events in its list. `source` is what its driver copies: `xPresetValue` of a
digital input, the parent's register of an interface object. As ghosts: the data at the last pass,
and whether a pass has missed a change. -/
structure Object (τ : Type) where
  driver : Driver
  source : Value τ
  value : Value τ
  /-- `FTE_OBJ_STATUS_FLAG_CHANGED` -/
  flag : Bool
  events : List (Event τ)
  last : Int32
  missed : Bool

inductive Update (τ : Type) where
  /-- `FTE_DI_ISR`, or a sample that the parent's driver sets. -/
  | source (nValue : Int32) (now : τ)
  /-- `FTE_DI_update` -/
  | update (now : τ)
  /-- `FTE_IFCE_restartConvert` of an enabled object; `read` is the outcome of `FTE_OBJ_getValueAt`. -/
  | poll (read : Bool)
  /-- `_FTE_DS18B20_done` with the temperature, if one was read. -/
  | done (nTemperature : Option Int32) (now : τ)
  /-- The object's turn in a pass of `FTE_TASK_objectManagement`. -/
  | pass (now : τ)

section Step

variable {τ : Type} (diffMilliseconds : τ → τ → Int32)

/-- A `CHANGED` event that is enabled. -/
def Event.takesMark (e : Event τ) : Bool := e.pConfig.enabled && e.pConfig.xCondition == .changed

/-- An enabled `CHANGED` event with zero hold time. -/
def Event.notified (e : Event τ) : Bool := e.takesMark && e.pConfig.ulHoldTime == 0

def Event.marks (now : τ) (e : Event τ) (value : Value τ) : Bool :=
  (check diffMilliseconds now e.pConfig { e.xState with bChanged := false } value).2.1.bChanged

/-- The loop over an object's event list, and whether it marked all the notified events. -/
def checkEvents (now : τ) : List (Event τ) → Value τ → List (Event τ) × Value τ × Bool
  | [], value => ([], value, true)
  | e :: es, value =>
    let r := check diffMilliseconds now e.pConfig e.xState value
    let rest := checkEvents now es r.2.2
    ({ e with xState := r.2.1 } :: rest.1, rest.2.1,
      (!e.notified || e.marks diffMilliseconds now value) && rest.2.2)

/-- The test on the two times in `FTE_DI_update`: the words are compared without their signs. -/
def settled (ulDelay ulHold : UInt32) (source value : Value τ) (now : τ) : Bool :=
  let nDelayTime := diffMilliseconds source.xTimeStamp now
  let nHoldTime := diffMilliseconds value.xTimeStamp now
  (nHoldTime == 0 || nHoldTime.toUInt32 ≥ ulHold) && (ulDelay == 0 || nDelayTime.toUInt32 ≥ ulDelay)

namespace Object

def diUpdate (s : Object τ) (ulDelay ulHold : UInt32) (now : τ) : Object τ :=
  if s.value.nValue ≠ s.source.nValue then
    if settled diffMilliseconds ulDelay ulHold s.source s.value now then
      { s with value := s.source, flag := true }
    else s
  else if s.source.bChanged then
    { s with value := { s.value with xTimeStamp := s.source.xTimeStamp } }
  else s

def restartConvert (s : Object τ) (read : Bool) : Object τ :=
  let value := if read then s.source else s.value
  { s with value, flag := s.flag || !s.value.equal value }

/-- The object's flag is not set here. -/
def ds18b20Done (s : Object τ) (nTemperature : Option Int32) (now : τ) : Object τ :=
  match nTemperature with
  | some nTemperature => { s with value := s.value.set nTemperature now }
  | none => { s with value := s.value.setValid false }

def pass (s : Object τ) (now : τ) : Object τ :=
  let changed := s.value.nValue != s.last
  if s.flag then
    let r := checkEvents diffMilliseconds now s.events s.value
    { s with
      events := r.1, value := r.2.1, flag := false, last := s.value.nValue
      missed := s.missed || (changed && !r.2.2) }
  else
    { s with last := s.value.nValue, missed := s.missed || (changed && s.events.any Event.notified) }

def step (s : Object τ) : Update τ → Option (Object τ)
  | .source nValue now => some { s with source := s.source.set nValue now }
  | .update now => match s.driver with
    | .di ulDelay ulHold => some (s.diUpdate diffMilliseconds ulDelay ulHold now)
    | _ => none
  | .poll read => match s.driver with
    | .ifce => some (s.restartConvert read)
    | _ => none
  | .done nTemperature now => match s.driver with
    | .ds18b20 => some (s.ds18b20Done nTemperature now)
    | _ => none
  | .pass now => some (s.pass diffMilliseconds now)

end Object

end Step

section Notification

variable {τ : Type} (diffMilliseconds : τ → τ → Int32)

/-- The steps that hand a change on to the events. A sample that the last pass has not seen is taken
while it carries its mark, a conversion delivers the temperature that the last pass saw, and a pass
with a change finds one event to take the mark, and no notified one that occurred at or after now. -/
def Object.Allowed (s : Object τ) (a : Update τ) : Prop :=
  s.events.any Event.notified = true → match a with
    | .source _ _ => True
    | .update _ =>
      s.source.nValue ≠ s.value.nValue → s.source.nValue ≠ s.last → s.source.bChanged = true
    | .poll read => read = true → s.source.nValue ≠ s.last → s.source.bChanged = true
    | .done nTemperature _ => ∀ v ∈ nTemperature, v = s.last
    | .pass now => s.value.nValue ≠ s.last → (s.events.filter Event.takesMark).length ≤ 1 ∧
        ∀ e ∈ s.events, e.notified = true → e.xState.held diffMilliseconds now 0 = false

/-- No change is missed, and one since the last pass stands marked on the value and the object. -/
structure Object.Inv (s : Object τ) : Prop where
  kept : s.missed = false
  marked : s.events.any Event.notified = true → s.value.nValue ≠ s.last →
    s.flag = true ∧ s.value.bChanged = true

variable {diffMilliseconds}

theorem check_of_not_takesMark {e : Event τ} (h : e.takesMark = false) (now : τ) (st : EventState τ)
    (value : Value τ) : (check diffMilliseconds now e.pConfig st value).2.2 = value := by
  unfold check
  cases hen : e.pConfig.enabled with
  | false => simp
  | true =>
    cases hc : e.pConfig.xCondition <;> simp_all [Event.takesMark] <;> split <;>
      first | rfl | (split <;> rfl)

theorem marks_of_notified {e : Event τ} (h : e.notified = true) {now : τ}
    (hfree : e.xState.held diffMilliseconds now 0 = false) {value : Value τ}
    (hmark : value.bChanged = true) : e.marks diffMilliseconds now value = true := by
  simp only [Event.notified, Event.takesMark, Bool.and_eq_true, beq_iff_eq] at h
  obtain ⟨⟨hen, hc⟩, hhold⟩ := h
  have hfree' : EventState.held diffMilliseconds { e.xState with bChanged := false } now
      e.pConfig.ulHoldTime = false := by
    rw [hhold]
    exact hfree
  simp [Event.marks, check, hen, hc, hfree', hmark, EventState.change]

theorem checkEvents_of_none {now : τ} {es : List (Event τ)} {value : Value τ}
    (h : ∀ e ∈ es, e.notified = false) : (checkEvents diffMilliseconds now es value).2.2 = true := by
  induction es generalizing value with
  | nil => rfl
  | cons e es ih =>
    simp only [checkEvents, h e List.mem_cons_self, Bool.not_false, Bool.true_or, Bool.true_and]
    exact ih fun d hd => h d (List.mem_cons_of_mem _ hd)

/-- With one event to take the mark, every notified event finds it. -/
theorem checkEvents_marks {now : τ} {es : List (Event τ)} {value : Value τ}
    (hone : (es.filter Event.takesMark).length ≤ 1)
    (hfree : ∀ e ∈ es, e.notified = true → e.xState.held diffMilliseconds now 0 = false)
    (hmark : value.bChanged = true) : (checkEvents diffMilliseconds now es value).2.2 = true := by
  induction es generalizing value with
  | nil => rfl
  | cons e es ih =>
    have hfree' : ∀ e ∈ es, e.notified = true → e.xState.held diffMilliseconds now 0 = false :=
      fun e he => hfree e (List.mem_cons_of_mem _ he)
    cases ht : e.takesMark with
    | false =>
      simp only [List.filter_cons, ht, Bool.false_eq_true, if_false] at hone
      have hn : e.notified = false := by simp [Event.notified, ht]
      simp only [checkEvents, hn, check_of_not_takesMark ht, Bool.not_false, Bool.true_or,
        Bool.true_and]
      exact ih hone hfree' hmark
    | true =>
      -- no event behind this one asks for the mark
      simp only [List.filter_cons, ht, if_true, List.length_cons] at hone
      have hnone : ∀ d ∈ es, d.notified = false := by
        intro d hd
        have hnil := List.eq_nil_of_length_eq_zero (by omega : (es.filter Event.takesMark).length = 0)
        simp [Event.notified, List.filter_eq_nil_iff.mp hnil d hd]
      simp only [checkEvents, checkEvents_of_none hnone, Bool.and_true, Bool.or_eq_true,
        Bool.not_eq_true']
      cases hn : e.notified with
      | false => exact .inl rfl
      | true => exact .inr (marks_of_notified hn (hfree e List.mem_cons_self hn) hmark)

theorem check_nValue (now : τ) (cfg : EventConfig) (e : EventState τ) (value : Value τ) :
    (check diffMilliseconds now cfg e value).2.2.nValue = value.nValue := by
  unfold check
  split
  · rfl
  · split
    · rfl
    · split
      · split <;> rfl
      · rfl
      · split <;> rfl

theorem checkEvents_nValue (now : τ) (es : List (Event τ)) (value : Value τ) :
    (checkEvents diffMilliseconds now es value).2.1.nValue = value.nValue := by
  induction es generalizing value with
  | nil => rfl
  | cons e es ih => simp only [checkEvents, ih, check_nValue]

namespace Object

theorem inv_diUpdate {s : Object τ} (h : s.Inv) {ulDelay ulHold : UInt32} {now : τ}
    (ha : s.Allowed diffMilliseconds (.update now)) :
    (s.diUpdate diffMilliseconds ulDelay ulHold now).Inv := by
  unfold diUpdate
  split
  · rename_i hne
    split
    · exact ⟨h.kept, fun hn hl => ⟨rfl, ha hn (Ne.symm hne) hl⟩⟩
    · exact h
  · split
    · exact ⟨h.kept, h.marked⟩
    · exact h

theorem inv_restartConvert {s : Object τ} (h : s.Inv) {read : Bool}
    (ha : s.Allowed diffMilliseconds (.poll read)) : (s.restartConvert read).Inv := by
  refine ⟨h.kept, fun hn hl => ?_⟩
  cases read with
  | false =>
    obtain ⟨hf, hm⟩ := h.marked hn hl
    exact ⟨by simp [restartConvert, hf], hm⟩
  | true =>
    refine ⟨?_, ha hn rfl hl⟩
    -- a sample that the object has already taken has set the flag then
    by_cases he : s.value.nValue = s.source.nValue
    · have hl' : s.value.nValue ≠ s.last := he ▸ hl
      simp [restartConvert, (h.marked hn hl').1]
    · cases ht : s.value.xType <;> simp [restartConvert, Value.equal, ht, he]

theorem inv_ds18b20Done {s : Object τ} (h : s.Inv) {nTemperature : Option Int32} {now : τ}
    (ha : s.Allowed diffMilliseconds (.done nTemperature now)) :
    (s.ds18b20Done nTemperature now).Inv := by
  cases nTemperature with
  | none => exact ⟨h.kept, h.marked⟩
  | some v => exact ⟨h.kept, fun hn hl => absurd (ha hn v rfl) hl⟩

theorem inv_pass {s : Object τ} (h : s.Inv) {now : τ} (ha : s.Allowed diffMilliseconds (.pass now)) :
    (s.pass diffMilliseconds now).Inv := by
  have hkept := h.kept
  unfold pass
  split
  · refine ⟨?_, fun _ hl => absurd (checkEvents_nValue now s.events s.value) hl⟩
    by_cases hl : s.value.nValue = s.last
    · simp [hkept, hl]
    · have hall : (checkEvents diffMilliseconds now s.events s.value).2.2 = true := by
        by_cases hn : s.events.any Event.notified = true
        · obtain ⟨hone, hfree⟩ := ha hn hl
          exact checkEvents_marks hone hfree (h.marked hn hl).2
        · exact checkEvents_of_none (by simpa using hn)
      simp [hkept, hall]
  · rename_i hflag
    refine ⟨?_, fun _ hl => absurd rfl hl⟩
    by_cases hl : s.value.nValue = s.last
    · simp [hkept, hl]
    · have hn : ¬ s.events.any Event.notified = true := fun hn => hflag (h.marked hn hl).1
      simp only [hkept, Bool.eq_false_iff.mpr hn, Bool.and_false, Bool.or_self]

theorem inv_step {s s' : Object τ} {a : Update τ} (h : s.Inv) (ha : s.Allowed diffMilliseconds a)
    (hs : s.step diffMilliseconds a = some s') : s'.Inv := by
  cases a with
  | source nValue now =>
    cases hs
    exact ⟨h.kept, h.marked⟩
  | update now =>
    cases hd : s.driver with
    | di ulDelay ulHold =>
      simp only [step, hd, Option.some.injEq] at hs
      exact hs ▸ inv_diUpdate h ha
    | _ => simp [step, hd] at hs
  | poll read =>
    cases hd : s.driver with
    | ifce =>
      simp only [step, hd, Option.some.injEq] at hs
      exact hs ▸ inv_restartConvert h ha
    | _ => simp [step, hd] at hs
  | done nTemperature now =>
    cases hd : s.driver with
    | ds18b20 =>
      simp only [step, hd, Option.some.injEq] at hs
      exact hs ▸ inv_ds18b20Done h ha
    | _ => simp [step, hd] at hs
  | pass now =>
    simp only [step, Option.some.injEq] at hs
    exact hs ▸ inv_pass h ha

local instance decidableForallMem (o : Option Int32) (p : Int32 → Prop) [DecidablePred p] :
    Decidable (∀ v ∈ o, p v) :=
  Option.decidableForallMem o

instance (s : Object τ) : DecidablePred (s.Allowed diffMilliseconds) := fun a => by
  cases a <;> (unfold Allowed; infer_instance)

section Runs

def twenty : Value Int32 := ⟨.temperature, true, false, 0, 2000, 0⟩

/-- An object at 20 degrees with `n` `CHANGED` events. -/
def quiet (driver : Driver) (n : Nat) : Object Int32 where
  driver := driver
  source := twenty
  value := twenty
  flag := false
  events := List.replicate n ⟨⟨1, .changed, ⟨0, 0⟩, ⟨0, 0, 0⟩, 0⟩, ⟨false, false, 0⟩⟩
  last := 2000
  missed := false

end Runs

end Object

end Notification

end EdgeNode.Obj
