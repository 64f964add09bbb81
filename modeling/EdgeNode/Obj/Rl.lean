import EdgeNode.Lib.Runs
import EdgeNode.Values.Text

/-! The latching relay: its setters, its attachment and the pulses that its coils are given. -/

namespace EdgeNode.Obj.Rl

open Runs Values

section Relays

inductive Coil where
  | opening
  | closing
deriving DecidableEq

/-- `FTE_RL_CONFIG` -/
structure Config where
  nID : UInt32
  nGPIOOpen : UInt32
  nGPIOClose : UInt32
  nInitClosed : UInt32
  nLED : UInt32
deriving DecidableEq

/-- A relay object: its value, `pAction` and the flag `FTE_OBJ_STATUS_FLAG_VALID`, what its LED shows,
and as a ghost the coils as they stand and those that were switched on, the latest last. -/
structure Relay where
  pConfig : Config
  pValue : Option Values.Value
  pAction : Bool
  valid : Bool
  led : Option UInt32
  on : Coil → Bool
  pulses : List Coil

/-- A relay as it is created, with its status zeroed. -/
def Relay.create (pConfig : Config) : Relay := ⟨pConfig, none, false, false, none, fun _ => false, []⟩

/-- What the GPIOs answer in an action: whether `FTE_GPIO_get` finds one, whether it can be attached,
and whether a level can be written to a coil. -/
structure Gpios where
  get : UInt32 → Bool
  attach : UInt32 → Bool
  write : Coil → Bool → Bool

def Gpios.Works (gpios : Gpios) : Prop := ∀ coil level, gpios.write coil level = true

/-- The coil that brings the relay to a value. -/
def coilOf (bValue : UInt32) : Coil := if bValue ≠ 0 then .closing else .opening

/-- `FTE_GPIO_setValue` of a coil. -/
def Relay.write (r : Relay) (gpios : Gpios) (coil : Coil) (level : Bool) : Bool × Relay :=
  if gpios.write coil level then
    (true, { r with
      on := Function.update r.on coil level
      pulses := if level then r.pulses ++ [coil] else r.pulses })
  else (false, r)

/-- The error path of `_FTE_RL_setValue`, which leaves the value as it is. -/
def Relay.fail (r : Relay) : Option Ret × Relay := (some retError, { r with valid := false })

/-- `_FTE_RL_setValue`. Without a value `FTE_VALUE_setDIO` stops the task, behind the pulse, and there
is no result. -/
def Relay.setValue (r : Relay) (gpios : Gpios) (bValue : UInt32) : Option Ret × Relay :=
  let (started, r) := r.write gpios (coilOf bValue) true
  if started then
    let (ended, r) := r.write gpios (coilOf bValue) false
    if ended then
      match r.pValue with
      | none => (none, r)
      | some pValue => (some retOk, { r with
          pValue := some (accept pValue bValue).2
          led := if r.pConfig.nLED ≠ 0 then some bValue else r.led })
    else r.fail
  else r.fail

end Relays

section Objects

/-- The objects and `_xObjList`. -/
structure World where
  objs : Nat → Relay
  xObjList : List Nat

namespace World

variable (w : World)

def withRelay (i : Nat) (r : Relay) : World := { w with objs := Function.update w.objs i r }

/-- `_FTE_RL_getObject`. -/
def getObject (nID : UInt32) : Option Nat := w.xObjList.find? fun i => (w.objs i).pConfig.nID = nID

/-- `FTE_VALUE_initDIO`. -/
def initDIO (bValue : UInt32) : Ret × Values.Value := (retOk, ⟨.dio, false, 0, bValue⟩)

/-- `FTE_RL_setValue`. -/
def setValue (gpios : Gpios) (nID bValue : UInt32) : Option Ret × World :=
  match w.getObject nID with
  | none => (some retError, w)
  | some i =>
    let (xRet, xValue) := initDIO bValue
    if xRet = retOk then (some retError, w)
    else
      let (xRet, r) := (w.objs i).setValue gpios xValue.xData
      (xRet.map fun _ => retOk, w.withRelay i r)

/-- `_FTE_RL_init`, which attaches the GPIOs again and does not look at what that and the setter
return. -/
def init (gpios : Gpios) (i : Nat) : Option Ret × World :=
  let (xRet, w) := w.setValue gpios (w.objs i).pConfig.nID (w.objs i).pConfig.nInitClosed
  (xRet.map fun _ => retOk, w)

/-- The GPIOs of the relay can be attached. -/
def Attachable (gpios : Gpios) (i : Nat) : Prop :=
  (gpios.get (w.objs i).pConfig.nGPIOOpen = true ∧ gpios.attach (w.objs i).pConfig.nGPIOOpen = true) ∧
    gpios.get (w.objs i).pConfig.nGPIOClose = true ∧ gpios.attach (w.objs i).pConfig.nGPIOClose = true

instance (gpios : Gpios) (i : Nat) : Decidable (w.Attachable gpios i) := by
  unfold Attachable
  infer_instance

/-- `FTE_RL_attach`, which makes no value; `push` says whether there is memory for the list. -/
def attach (gpios : Gpios) (push : Bool) (i : Nat) : Option Ret × World :=
  if w.Attachable gpios i then
    let w := w.withRelay i { w.objs i with pAction := true }
    match w.init gpios i with
    | (none, w) => (none, w)
    | (some xRet, w) =>
      if xRet ≠ retOk then (some retError, w)
      else (some retOk, { w with xObjList := if push then w.xObjList ++ [i] else w.xObjList })
  else (some retError, w)

/-- `FTE_RL_setPermanent`, which `FTE_VALUE_getULONG` stops without a value. -/
def setPermanent (nID : UInt32) : Option Ret × World :=
  match w.getObject nID with
  | none => (some retError, w)
  | some i =>
    let r := w.objs i
    match r.pValue with
    | none => (none, w)
    | some pValue =>
      (some retOk, w.withRelay i { r with pConfig := { r.pConfig with nInitClosed := pValue.xData } })

end World

inductive Action where
  | attach (gpios : Gpios) (push : Bool) (i : Nat)
  | setValue (gpios : Gpios) (nID bValue : UInt32)
  | set (gpios : Gpios) (i : Nat) (bValue : UInt32)
  | setPermanent (nID : UInt32)

/-- What an action returns, if its task is not stopped in it, and leaves to the other tasks;
`FTE_OBJ_setValue` of an object without actions is none of the runs. -/
def result (w : World) : Action → Option (Option Ret × World)
  | .attach gpios push i => some (w.attach gpios push i)
  | .setValue gpios nID bValue => some (w.setValue gpios nID bValue)
  | .set gpios i bValue =>
    if (w.objs i).pAction then
      let (xRet, r) := (w.objs i).setValue gpios bValue
      some (xRet, w.withRelay i r)
    else none
  | .setPermanent nID => some (w.setPermanent nID)

def step (w : World) (a : Action) : Option World := (result w a).map Prod.snd

/-- The relays as they are created, and no one attached. -/
def created (configs : Nat → Config) : World := ⟨fun i => Relay.create (configs i), []⟩

end Objects

section Specification

/-- The value, if there is one, is that of the last pulse. -/
def Relay.Reports (r : Relay) : Prop :=
  ∀ pValue ∈ r.pValue, ∀ coil ∈ r.pulses.getLast?, coilOf pValue.xData = coil

/-- The last pulse brought the relay to its initial state. -/
def Relay.Initial (r : Relay) : Prop := r.pulses.getLast? = some (coilOf r.pConfig.nInitClosed)

/-- The relay was brought to a value by a pulse of its coil alone: the value is stored, both coils are
off. -/
structure Relay.Pulsed (r r' : Relay) (bValue : UInt32) : Prop where
  pulses : r'.pulses = r.pulses ++ [coilOf bValue]
  off : ∀ coil, r'.on coil = false
  stored : ∃ pValue ∈ r'.pValue, pValue.xData = bValue

/-- What an action is to return and leave. -/
def Keeps (w : World) (a : Action) (xRet : Option Ret) (w' : World) : Prop :=
  match a with
  | .attach _ _ i => xRet = some retOk → (w'.objs i).Initial ∧ (w'.objs i).Reports
  | .setValue gpios nID bValue => ∀ i ∈ w.getObject nID,
      (gpios.Works → xRet = some retOk ∧ (w.objs i).Pulsed (w'.objs i) bValue) ∧
        (xRet = some retOk → (w'.objs i).Reports)
  | .set _ i _ => xRet = some retOk → (w'.objs i).Reports
  | .setPermanent nID => ∀ i ∈ w.getObject nID, xRet = some retOk → (w'.objs i).Reports

def ActionKeeps (w : World) (a : Action) : Prop :=
  ∀ xRet w', result w a = some (xRet, w') → Keeps w a xRet w'

/-- Only a relay that stands in its initial state is attached, and the public setter is not called on
an attached relay whose GPIOs work. -/
def Allowed (w : World) : Action → Prop
  | .attach gpios _ i => w.Attachable gpios i → (w.objs i).Initial
  | .setValue gpios nID _ => gpios.Works → w.getObject nID = none
  | .set _ _ _ | .setPermanent _ => True

end Specification

section Actions

variable {w w' : World} {r : Relay} {gpios : Gpios} {bValue : UInt32} {i : Nat}

/-- No relay has a value: nothing but `FTE_RL_attach` would make one, and it does not. -/
def World.Valueless (w : World) : Prop := ∀ i, (w.objs i).pValue = none

theorem Relay.reports_of_none (h : r.pValue = none) : r.Reports := by
  intro pValue hvalue
  rw [h] at hvalue
  cases hvalue

/-- The object action of a relay without a value is stopped or fails, and makes none. -/
theorem Relay.setValue_of_none (h : r.pValue = none) :
    (r.setValue gpios bValue).1 ≠ some retOk ∧ (r.setValue gpios bValue).2.pValue = none := by
  rw [Relay.setValue]
  cases hstart : gpios.write (coilOf bValue) true with
  | false =>
    simp only [Relay.write, hstart, Bool.false_eq_true, if_false, Relay.fail]
    exact ⟨some_retError_ne, h⟩
  | true =>
    cases hend : gpios.write (coilOf bValue) false with
    | false =>
      simp only [Relay.write, hstart, hend, if_true, Bool.false_eq_true, if_false, Relay.fail]
      exact ⟨some_retError_ne, h⟩
    | true =>
      simp only [Relay.write, hstart, hend, if_true, Bool.false_eq_true, if_false, h]
      exact ⟨Option.some_ne_none _ ∘ Eq.symm, trivial⟩

/-- With working GPIOs the object action pulses the coil alone, and stops its task behind the pulse. -/
theorem Relay.pulses_setValue (hworks : gpios.Works) (hoff : ∀ coil, r.on coil = false)
    (h : r.pValue = none) : (r.setValue gpios bValue).1 = none ∧
      (r.setValue gpios bValue).2.pulses = r.pulses ++ [coilOf bValue] ∧
      ∀ coil, (r.setValue gpios bValue).2.on coil = false := by
  simp only [Relay.setValue, Relay.write, hworks _ _, if_true, Bool.false_eq_true, if_false, h,
    true_and]
  intro coil
  by_cases hcoil : coil = coilOf bValue
  · rw [hcoil]
    exact Function.update_self _ _ _
  · rw [Function.update_of_ne hcoil, Function.update_of_ne hcoil]
    exact hoff coil

/-- The test of the setter is inverted: it never comes to the pulse. -/
theorem World.setValue_eq (nID : UInt32) : w.setValue gpios nID bValue = (some retError, w) := by
  rw [World.setValue]
  cases w.getObject nID with
  | none => rfl
  | some i => rfl

theorem World.attach_of_attachable (h : w.Attachable gpios i) (push : Bool) :
    (w.attach gpios push i).1 = some retOk ∧
      (w.attach gpios push i).2.objs = Function.update w.objs i { w.objs i with pAction := true } := by
  rw [World.attach, if_pos h]
  simp only [World.init, World.setValue_eq, Option.map_some, ne_eq, not_true_eq_false, if_false,
    true_and, World.withRelay]

/-- Without a value the task is stopped. -/
theorem World.setPermanent_of_valueless (hi : w.Valueless) (nID : UInt32) :
    (w.setPermanent nID).1 ≠ some retOk ∧ (w.setPermanent nID).2 = w := by
  rw [World.setPermanent]
  cases w.getObject nID with
  | none => exact ⟨some_retError_ne, rfl⟩
  | some i =>
    simp only [hi i]
    exact ⟨Option.some_ne_none _ ∘ Eq.symm, trivial⟩

theorem World.Valueless.withRelay (hi : w.Valueless) (h : r.pValue = none) :
    (w.withRelay i r).Valueless := by
  intro k
  by_cases hk : k = i
  · rw [hk, World.withRelay]
    exact (congrArg Relay.pValue (Function.update_self i r w.objs)).trans h
  · exact (congrArg Relay.pValue (Function.update_of_ne hk r w.objs)).trans (hi k)

theorem valueless_step {a : Action} (hi : w.Valueless) (h : step w a = some w') : w'.Valueless := by
  rw [step] at h
  cases a with
  | attach gpios push i =>
    obtain rfl := Option.some.inj h
    by_cases hattach : w.Attachable gpios i
    · have hobjs := (w.attach_of_attachable hattach push).2
      have hwith := hi.withRelay (r := { w.objs i with pAction := true }) (i := i) (hi i)
      intro k
      rw [hobjs]
      exact hwith k
    · rw [World.attach, if_neg hattach]
      exact hi
  | setValue gpios nID bValue =>
    obtain rfl := Option.some.inj h
    rw [World.setValue_eq]
    exact hi
  | set gpios i bValue =>
    cases haction : (w.objs i).pAction with
    | false =>
      rw [result, haction] at h
      cases h
    | true =>
      rw [result, haction] at h
      obtain rfl := Option.some.inj h
      exact hi.withRelay (Relay.setValue_of_none (hi i)).2
  | setPermanent nID =>
    obtain rfl := Option.some.inj h
    rw [(World.setPermanent_of_valueless hi nID).2]
    exact hi

theorem actionKeeps_of_result {a : Action} {p : Option Ret × World} (h : result w a = some p) :
    ActionKeeps w a ↔ Keeps w a p.1 p.2 := by
  rw [ActionKeeps, h]
  constructor
  · exact fun hkeeps => hkeeps _ _ rfl
  · rintro hkeeps _ _ ⟨⟩
    exact hkeeps

theorem actionKeeps_iff (hi : w.Valueless) (a : Action) : ActionKeeps w a ↔ Allowed w a := by
  cases a with
  | attach gpios push i =>
    rw [actionKeeps_of_result rfl, Keeps, Allowed]
    by_cases h : w.Attachable gpios i
    · obtain ⟨hret, hobjs⟩ := w.attach_of_attachable h push
      rw [hobjs, Function.update_self]
      constructor
      · exact fun hkeeps _ => (hkeeps hret).1
      · exact fun hallowed _ => ⟨hallowed h, Relay.reports_of_none (hi i)⟩
    · rw [World.attach, if_neg h]
      exact iff_of_true (fun hret => absurd hret some_retError_ne) fun hattach => absurd hattach h
  | setValue gpios nID bValue =>
    rw [actionKeeps_of_result rfl, Keeps, Allowed, World.setValue_eq]
    constructor
    · intro hkeeps hworks
      by_contra hsome
      obtain ⟨i, hi⟩ := Option.ne_none_iff_exists'.mp hsome
      exact absurd ((hkeeps i hi).1 hworks).1 some_retError_ne
    · intro hallowed i hi
      refine ⟨fun hworks => ?_, fun hret => absurd hret some_retError_ne⟩
      rw [hallowed hworks] at hi
      cases hi
  | set gpios i bValue =>
    refine iff_of_true ?_ trivial
    intro xRet w' h hret
    cases haction : (w.objs i).pAction with
    | false =>
      rw [result, haction] at h
      cases h
    | true =>
      rw [result, haction] at h
      obtain ⟨rfl, -⟩ := Prod.mk.inj (Option.some.inj h)
      exact absurd hret (Relay.setValue_of_none (hi i)).1
  | setPermanent nID =>
    rw [actionKeeps_of_result rfl, Keeps]
    exact iff_of_true (fun _ _ hret => absurd hret (World.setPermanent_of_valueless hi nID).1) trivial

end Actions

section Results

theorem valueless_of_visits {configs : Nat → Config} {acts : List Action} {w : World}
    (h : Visits step (created configs) acts w) : w.Valueless :=
  inv_of_takes (fun _ => rfl) (fun _ _ _ hi (_ : True) => valueless_step hi) (fun _ _ _ => trivial) h

/-- In a run from the creation of the relays every action keeps to what it is to return and leave
exactly when none of them attaches a relay that does not already stand in its initial state, or calls
the public setter on an attached relay whose GPIOs work. -/
theorem actions_keep_iff (configs : Nat → Config) (acts : List Action) :
    (∀ w a, Takes step (created configs) acts w a → ActionKeeps w a) ↔
      ∀ w a, Takes step (created configs) acts w a → Allowed w a := by
  refine forall₂_congr fun w a => forall_congr' fun ht => actionKeeps_iff ?_ a
  obtain ⟨pre, hpre, hrun⟩ := ht
  exact valueless_of_visits ⟨pre, (List.prefix_append pre [a]).trans hpre, hrun⟩

def relay0 : Config := ⟨0x06010001, 1, 2, 0, 0⟩

def working : Gpios := ⟨fun _ => true, fun _ => true, fun _ _ => true⟩

/-- The setter of an attached relay with working GPIOs returns an error and gives no pulse. -/
theorem setValue_not_keeps :
    ¬ ∀ (configs : Nat → Config) (acts : List Action) w a,
      Takes step (created configs) acts w a → ActionKeeps w a := by
  intro h
  let w := created fun _ => relay0
  have hkeeps := h (fun _ => relay0) [.attach working true 0, .setValue working 0x06010001 1]
    (w.attach working true 0).2 (.setValue working 0x06010001 1)
    ⟨[.attach working true 0], List.prefix_rfl, rfl⟩
  have hobject : (w.attach working true 0).2.getObject 0x06010001 = some 0 := by decide
  have hret := ((hkeeps _ _ rfl 0 hobject).1 fun _ _ => rfl).1
  exact absurd hret some_retError_ne

end Results

end EdgeNode.Obj.Rl
