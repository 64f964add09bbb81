import EdgeNode.Lib.Runs
import EdgeNode.Lib.SlotTable
import EdgeNode.Types

/-! The tables in which the FutureTek, SOHA and DOTECH drivers keep their units and the tasks that
update them. -/

namespace EdgeNode.Obj

open Runs SlotTable

/-- `pDevices` and `ulDeviceCount` of a driver, whether a unit's status has a channel, and the unit
of each update task that runs. A task ID of zero is none. -/
structure SensorTable (n : Nat) (ο : Type) where
  pObj : Fin n → Option ο
  xTaskID : Fin n → Option UInt32
  ulDeviceCount : Nat
  pUCS : ο → Bool
  tasks : UInt32 → Option ο

namespace SensorTable

variable {n : Nat} {ο : Type} [DecidableEq ο] (t : SensorTable n ο) (pObj : ο)

def cleared : SensorTable n ο := ⟨fun _ => none, fun _ => none, 0, fun _ => false, fun _ => none⟩

section Common

/-! What the drivers have in common. -/

def occupy (i : Fin n) : SensorTable n ο :=
  { t with pObj := Function.update t.pObj i (some pObj), ulDeviceCount := t.ulDeviceCount + 1 }

def vacate (i : Fin n) : SensorTable n ο :=
  { t with pObj := Function.update t.pObj i none, ulDeviceCount := t.ulDeviceCount - 1 }

def withUCS (b : Bool) : SensorTable n ο := { t with pUCS := Function.update t.pUCS pObj b }

def init : Ret × SensorTable n ο :=
  match vacancy t.pObj with
  | none => (retObjectFull, t)
  | some i => (retOk, t.occupy pObj i)

def endTask (i : Fin n) : Option UInt32 → SensorTable n ο
  | none => t
  | some xTaskID => { t with
      xTaskID := Function.update t.xTaskID i none
      tasks := Function.update t.tasks xTaskID none }

def stop : Ret × SensorTable n ο :=
  match slotOf t.pObj pObj with
  | none => (retObjectNotFound, t)
  | some i => (retOk, t.endTask i (t.xTaskID i))

def final : Ret × SensorTable n ο :=
  match slotOf t.pObj pObj with
  | none => (retObjectNotFound, t)
  | some i =>
    let t := if (t.xTaskID i).isSome then (t.stop pObj).2 else t
    (retOk, t.vacate i)

/-- `running` is returned for a unit that has its task; with no identifier the creation fails. A
creation that fails may also never return, as `Sys.taskCreated` has it, and leaves the table alone. -/
def run (running : Ret) (xTaskID : Option UInt32) : Ret × SensorTable n ο :=
  match slotOf t.pObj pObj with
  | none => (retObjectNotFound, t)
  | some i =>
    match t.xTaskID i, xTaskID with
    | some _, _ => (running, t)
    | none, none => (retError, t)
    | none, some xTaskID => (retOk, { t with
        xTaskID := Function.update t.xTaskID i (some xTaskID)
        tasks := Function.update t.tasks xTaskID (some pObj) })

/-- The attach looks for the channel and attaches to it, and does not look at what the init
returns. -/
def attach (pUCS : Option Ret) : Ret × SensorTable n ο :=
  match pUCS with
  | none => (retObjectNotFound, t)
  | some xRet => if xRet ≠ retOk then (xRet, t) else (retOk, ((t.withUCS pObj true).init pObj).2)

/-- The detach leaves the table alone. -/
def detach : Ret × SensorTable n ο :=
  if t.pUCS pObj then (retOk, t.withUCS pObj false) else (retOk, t)

end Common

end SensorTable

section Drivers

variable {ο : Type} [DecidableEq ο]

section Futuretek

def futuretekDeviceMax : Nat := 10

variable (t : SensorTable futuretekDeviceMax ο) (pObj : ο)

def futuretekInit : Ret × SensorTable futuretekDeviceMax ο := t.init pObj

def futuretekFinal : Ret × SensorTable futuretekDeviceMax ο := t.final pObj

/-- Each of the models MS10, KM21B20 and JCG06 has a run of its own, that differs in the task. -/
def futuretekRun (xTaskID : Option UInt32) : Ret × SensorTable futuretekDeviceMax ο :=
  t.run pObj retRunning xTaskID

def futuretekStop : Ret × SensorTable futuretekDeviceMax ο := t.stop pObj

def futuretekAttach (pUCS : Option Ret) : Ret × SensorTable futuretekDeviceMax ο :=
  t.attach pObj pUCS

def futuretekDetach : Ret × SensorTable futuretekDeviceMax ο := t.detach pObj

end Futuretek

section Soha

def sohaDeviceMax : Nat := 2

variable (t : SensorTable sohaDeviceMax ο) (pObj : ο)

def sohaInit : Ret × SensorTable sohaDeviceMax ο := t.init pObj

def sohaFinal : Ret × SensorTable sohaDeviceMax ο := t.final pObj

def sohaRun (xTaskID : Option UInt32) : Ret × SensorTable sohaDeviceMax ο :=
  t.run pObj retRunning xTaskID

def sohaStop : Ret × SensorTable sohaDeviceMax ο := t.stop pObj

def sohaAttach (pUCS : Option Ret) : Ret × SensorTable sohaDeviceMax ο := t.attach pObj pUCS

def sohaDetach : Ret × SensorTable sohaDeviceMax ο := t.detach pObj

end Soha

section Dotech

def dotechFx3dMax : Nat := 8

variable (t : SensorTable dotechFx3dMax ο) (pObj : ο)

def dotechFx3dRun (xTaskID : Option UInt32) : Ret × SensorTable dotechFx3dMax ο :=
  t.run pObj retOk xTaskID

def dotechFx3dStop : Ret × SensorTable dotechFx3dMax ο := t.stop pObj

/-- The slot comes first, and the configuration of the unit is loaded. -/
def dotechFx3dAttach (pUCS : Option Ret) : Ret × SensorTable dotechFx3dMax ο :=
  match vacancy t.pObj with
  | none => (retObjectFull, t)
  | some i =>
    match pUCS with
    | none => (retObjectNotFound, t)
    | some xRet => if xRet ≠ retOk then (xRet, t) else (retOk, (t.withUCS pObj true).occupy pObj i)

def dotechFx3dDetach : Ret × SensorTable dotechFx3dMax ο :=
  match slotOf t.pObj pObj with
  | none => (retObjectNotFound, t)
  | some i =>
    let t := if (t.xTaskID i).isSome then (dotechFx3dStop t pObj).2 else t
    let t := if t.pUCS pObj then t.withUCS pObj false else t
    (retOk, t.vacate i)

end Dotech

end Drivers

inductive SensorDriver where
  | futuretek
  | soha
  | dotech
  deriving DecidableEq

instance : Fintype SensorDriver := ⟨{.futuretek, .soha, .dotech}, fun d => by cases d <;> decide⟩

namespace SensorDriver

variable {ο : Type} [DecidableEq ο]

def deviceMax : SensorDriver → Nat
  | futuretek => futuretekDeviceMax
  | soha => sohaDeviceMax
  | dotech => dotechFx3dMax

/-- The static data of a driver. -/
abbrev Table (ο : Type) (d : SensorDriver) : Type := SensorTable d.deviceMax ο

def attach (pObj : ο) (pUCS : Option Ret) : (d : SensorDriver) → d.Table ο → Ret × d.Table ο
  | futuretek, t => futuretekAttach t pObj pUCS
  | soha, t => sohaAttach t pObj pUCS
  | dotech, t => dotechFx3dAttach t pObj pUCS

def run (pObj : ο) (xTaskID : Option UInt32) : (d : SensorDriver) → d.Table ο → Ret × d.Table ο
  | futuretek, t => futuretekRun t pObj xTaskID
  | soha, t => sohaRun t pObj xTaskID
  | dotech, t => dotechFx3dRun t pObj xTaskID

def stop (pObj : ο) : (d : SensorDriver) → d.Table ο → Ret × d.Table ο
  | futuretek, t => futuretekStop t pObj
  | soha, t => sohaStop t pObj
  | dotech, t => dotechFx3dStop t pObj

def detach (pObj : ο) : (d : SensorDriver) → d.Table ο → Ret × d.Table ο
  | futuretek, t => futuretekDetach t pObj
  | soha, t => sohaDetach t pObj
  | dotech, t => dotechFx3dDetach t pObj

end SensorDriver

section System

variable {ο : Type} [DecidableEq ο]

/-- The drivers' tables, and of which units the last attach or detach that returned OK was an
attach. -/
structure Sensors (ο : Type) where
  table : (d : SensorDriver) → d.Table ο
  attached : SensorDriver → ο → Bool

inductive SensorAction (ο : Type) where
  | attach (d : SensorDriver) (pObj : ο) (pUCS : Option Ret)
  | run (d : SensorDriver) (pObj : ο) (xTaskID : Option UInt32)
  | stop (d : SensorDriver) (pObj : ο)
  | detach (d : SensorDriver) (pObj : ο)

namespace SensorTable

/-- Each attached unit is in one slot, the slots hold nothing else, the count is theirs, and a task
that runs is that of an attached unit. -/
structure Tabled {n : Nat} (t : SensorTable n ο) (attached : ο → Bool) : Prop where
  slots : Holds t.pObj fun o => attached o = true
  count : t.ulDeviceCount = (occupied t.pObj).card
  tasks : ∀ id o, t.tasks id = some o → attached o = true

/-- Beyond that, the tasks that run are those that the occupied slots name. -/
structure Inv {n : Nat} (t : SensorTable n ο) (attached : ο → Bool) : Prop where
  slots : Holds t.pObj fun o => attached o = true
  count : t.ulDeviceCount = (occupied t.pObj).card
  named : ∀ id o, t.tasks id = some o → ∃ i, t.pObj i = some o ∧ t.xTaskID i = some id
  runs : ∀ i id, t.xTaskID i = some id → ∃ o, t.pObj i = some o ∧ t.tasks id = some o

section Tables

variable {n : Nat} {t : SensorTable n ο} {attached : ο → Bool} {o : ο} {i : Fin n}

omit [DecidableEq ο] in
theorem Inv.tabled (h : t.Inv attached) : t.Tabled attached := by
  refine ⟨h.slots, h.count, fun id o hid => ?_⟩
  obtain ⟨i, hi, -⟩ := h.named id o hid
  exact h.slots.only i o hi

omit [DecidableEq ο] in
theorem inv_cleared : (cleared : SensorTable n ο).Inv fun _ => false :=
  ⟨⟨nofun, nofun, nofun⟩, by simp [cleared, occupied], nofun, nofun⟩

theorem Inv.withUCS (h : t.Inv attached) (o : ο) (b : Bool) : (t.withUCS o b).Inv attached :=
  ⟨h.slots, h.count, h.named, h.runs⟩

theorem Inv.occupy (h : t.Inv attached) (hi : t.pObj i = none) (ho : attached o = false) :
    (t.occupy o i).Inv (Function.update attached o true) := by
  have hidle : t.xTaskID i = none := by
    rw [Option.eq_none_iff_forall_not_mem]
    intro id hid
    obtain ⟨p, hp, -⟩ := h.runs i id hid
    rw [hi] at hp
    cases hp
  refine ⟨?_, ?_, fun id p hid => ?_, fun j id hj => ?_⟩
  · refine (h.slots.put hi (x := o) (by simp [ho])).congr fun p => ?_
    rw [Function.update_apply]
    split <;> simp [*]
  · simp only [SensorTable.occupy]
    rw [card_put hi, h.count]
  · obtain ⟨j, hj, hjid⟩ := h.named id p hid
    exact ⟨j, (put_eq hi).mpr (.inr hj), hjid⟩
  · obtain ⟨p, hp, hid⟩ := h.runs j id hj
    exact ⟨p, (put_eq hi).mpr (.inr hp), hid⟩

omit [DecidableEq ο] in
/-- A unit that is put into a second slot. -/
theorem Inv.not_occupy {attached' : ο → Bool} (h : t.Inv attached) (hi : t.pObj i = none)
    (ho : attached o = true) : ¬ (t.occupy o i).Tabled attached' :=
  fun h' => h.slots.not_put hi ho h'.slots

theorem Inv.vacate (h : t.Inv attached) (hi : t.pObj i = some o) (hidle : t.xTaskID i = none) :
    (t.vacate i).Inv (Function.update attached o false) := by
  have hne (j : Fin n) (id : UInt32) (hj : t.xTaskID j = some id) : j ≠ i := by
    rintro rfl
    rw [hidle] at hj
    cases hj
  refine ⟨?_, ?_, fun id p hid => ?_, fun j id hj => ?_⟩
  · refine (h.slots.clear hi).congr fun p => ?_
    rw [Function.update_apply]
    split <;> simp [*]
  · have hcard := card_clear hi
    simp only [SensorTable.vacate]
    rw [h.count, ← hcard, Nat.add_sub_cancel]
  · obtain ⟨j, hj, hjid⟩ := h.named id p hid
    exact ⟨j, clear_eq.mpr ⟨hne j id hjid, hj⟩, hjid⟩
  · obtain ⟨p, hp, hid⟩ := h.runs j id hj
    exact ⟨p, clear_eq.mpr ⟨hne j id hj, hp⟩, hid⟩

omit [DecidableEq ο] in
theorem Inv.endTask (h : t.Inv attached) {id : UInt32} (hid : t.xTaskID i = some id) :
    (t.endTask i (some id)).Inv attached := by
  obtain ⟨o, ho, hrun⟩ := h.runs i id hid
  refine ⟨h.slots, h.count, fun id' p hid' => ?_, fun j id' hj => ?_⟩
  · obtain ⟨hne, hid'⟩ := clear_eq.mp hid'
    obtain ⟨j, hj, hjid⟩ := h.named id' p hid'
    refine ⟨j, hj, (Function.update_of_ne ?_ _ _).trans hjid⟩
    rintro rfl
    exact hne (Option.some.inj (hjid.symm.trans hid))
  · obtain ⟨hne, hj⟩ := clear_eq.mp hj
    obtain ⟨p, hp, hid'⟩ := h.runs j id' hj
    refine ⟨p, hp, (Function.update_of_ne ?_ _ _).trans hid'⟩
    rintro rfl
    cases hrun.symm.trans hid'
    exact hne (h.slots.once j i o hp ho)

theorem Inv.stop (h : t.Inv attached) (o : ο) : (t.stop o).2.Inv attached := by
  rw [SensorTable.stop]
  split
  next => exact h
  next i _ =>
    dsimp only
    cases hid : t.xTaskID i with
    | none => exact h
    | some id => exact h.endTask hid

theorem stop_pObj (t : SensorTable n ο) (o : ο) : (t.stop o).2.pObj = t.pObj := by
  rw [SensorTable.stop]
  split
  next => rfl
  next i _ =>
    dsimp only
    cases t.xTaskID i <;> rfl

theorem stop_pUCS (t : SensorTable n ο) (o : ο) : (t.stop o).2.pUCS = t.pUCS := by
  rw [SensorTable.stop]
  split
  next => rfl
  next i _ =>
    dsimp only
    cases t.xTaskID i <;> rfl

theorem stop_xTaskID (hi : slotOf t.pObj o = some i) : (t.stop o).2.xTaskID i = none := by
  rw [SensorTable.stop, hi]
  dsimp only
  cases hid : t.xTaskID i with
  | none => exact hid
  | some id => exact Function.update_self ..

/-- The task that is created is no other's. -/
theorem Inv.run (h : t.Inv attached) (o : ο) (running : Ret) {xTaskID : Option UInt32}
    (hfresh : ∀ id ∈ xTaskID, t.tasks id = none) : (t.run o running xTaskID).2.Inv attached := by
  rw [SensorTable.run]
  split
  next => exact h
  next i hi =>
    have hi := slotOf_eq hi
    split
    next => exact h
    next => exact h
    next id hidle =>
      have hid := hfresh id rfl
      refine ⟨h.slots, h.count, fun id' p hid' => ?_, fun j id' hj => ?_⟩
      · obtain ⟨rfl, rfl⟩ | hid' := (put_eq hid).mp hid'
        · exact ⟨i, hi, Function.update_self ..⟩
        · obtain ⟨j, hj, hjid⟩ := h.named id' p hid'
          exact ⟨j, hj, (put_eq hidle).mpr (.inr hjid)⟩
      · obtain ⟨rfl, rfl⟩ | hj := (put_eq hidle).mp hj
        · exact ⟨o, hi, Function.update_self ..⟩
        · obtain ⟨p, hp, hid'⟩ := h.runs j id' hj
          exact ⟨p, hp, (put_eq hid).mpr (.inr hid')⟩

end Tables

end SensorTable

namespace Sensors

def start : Sensors ο := ⟨fun _ => SensorTable.cleared, fun _ _ => false⟩

/-- The call of a driver's function on its table; `b` says what it makes of the unit. -/
def call (s : Sensors ο) (d : SensorDriver) (pObj : ο) (b : Bool) (r : Ret × d.Table ο) : Sensors ο where
  table := Function.update s.table d r.2
  attached :=
    if r.1 = retOk then Function.update s.attached d (Function.update (s.attached d) pObj b)
    else s.attached

/-- A task that is created has an identifier that no other has. -/
def NewTask (s : Sensors ο) (xTaskID : Option UInt32) : Prop :=
  ∀ id ∈ xTaskID, ∀ e, (s.table e).tasks id = none

instance (s : Sensors ο) (xTaskID : Option UInt32) : Decidable (s.NewTask xTaskID) :=
  Option.decidableForallMem xTaskID

def step (s : Sensors ο) : SensorAction ο → Option (Sensors ο)
  | .attach d pObj pUCS => s.call d pObj true (d.attach pObj pUCS (s.table d))
  | .run d pObj xTaskID =>
    if s.NewTask xTaskID then
      some { s with table := Function.update s.table d (d.run pObj xTaskID (s.table d)).2 }
    else none
  | .stop d pObj => some { s with table := Function.update s.table d (d.stop pObj (s.table d)).2 }
  | .detach d pObj => s.call d pObj false (d.detach pObj (s.table d))

/-- Of every driver. -/
def Tabled (s : Sensors ο) : Prop := ∀ d, (s.table d).Tabled (s.attached d)

/-- An attach that gets its channel is of a unit that is not attached, and for it there is a slot;
FutureTek and SOHA also accept one that is attached, when their table is full, and they detach only
units that are not attached. -/
def Allowed (s : Sensors ο) : SensorAction ο → Prop
  | .attach .dotech pObj pUCS => pUCS = some retOk → vacancy (s.table .dotech).pObj ≠ none →
      s.attached .dotech pObj = false
  | .attach d pObj pUCS => pUCS = some retOk →
      (s.attached d pObj = true ↔ vacancy (s.table d).pObj = none)
  | .detach .dotech _ => True
  | .detach d pObj => s.attached d pObj = false
  | .run _ _ _ => True
  | .stop _ _ => True

def Inv (s : Sensors ο) : Prop := ∀ d, (s.table d).Inv (s.attached d)

open SensorTable

variable {n : Nat} {t : SensorTable n ο} {attached : ο → Bool} {o : ο}

/-- Behind a function that returns OK the unit counts as attached, or as detached. -/
def marked (attached : ο → Bool) (o : ο) (b : Bool) (r : Ret × SensorTable n ο) : ο → Bool :=
  if r.1 = retOk then Function.update attached o b else attached

theorem attach_failed {pUCS : Option Ret} (h : pUCS ≠ some retOk) :
    ∃ xRet, t.attach o pUCS = (xRet, t) ∧ xRet ≠ retOk := by
  cases pUCS with
  | none => exact ⟨_, rfl, by decide⟩
  | some xRet =>
    have hne : xRet ≠ retOk := fun heq => h (congrArg some heq)
    exact ⟨xRet, by rw [SensorTable.attach, if_pos hne], hne⟩

theorem attach_ok {i : Fin n} (hi : vacancy t.pObj = some i) :
    t.attach o (some retOk) = (retOk, (t.withUCS o true).occupy o i) := by
  have hi : vacancy (t.withUCS o true).pObj = some i := hi
  rw [SensorTable.attach, if_neg (by simp), init, hi]

theorem attach_full (hi : vacancy t.pObj = none) :
    t.attach o (some retOk) = (retOk, t.withUCS o true) := by
  have hi : vacancy (t.withUCS o true).pObj = none := hi
  rw [SensorTable.attach, if_neg (by simp), init, hi]

/-- In the drivers that do not look at a full table. -/
theorem inv_attach (h : t.Inv attached) {pUCS : Option Ret}
    (ha : pUCS = some retOk → (attached o = true ↔ vacancy t.pObj = none)) :
    (t.attach o pUCS).2.Inv (marked attached o true (t.attach o pUCS)) := by
  by_cases hucs : pUCS = some retOk
  · subst hucs
    rw [marked]
    cases hv : vacancy t.pObj with
    | none =>
      rw [attach_full hv, if_pos rfl]
      have hsame : Function.update attached o true = attached :=
        Function.update_eq_self_iff.mpr ((ha rfl).mpr hv).symm
      rw [hsame]
      exact h.withUCS o true
    | some i =>
      have ho : attached o = false := by
        rw [← Bool.not_eq_true, ha rfl, hv]
        nofun
      rw [attach_ok hv, if_pos rfl]
      exact (h.withUCS o true).occupy (vacancy_eq hv) ho
  · obtain ⟨xRet, heq, hne⟩ := attach_failed (t := t) (o := o) hucs
    rw [marked, heq, if_neg hne]
    exact h

theorem not_tabled_attach (h : t.Inv attached) {pUCS : Option Ret}
    (ha : ¬ (pUCS = some retOk → (attached o = true ↔ vacancy t.pObj = none))) :
    ¬ (t.attach o pUCS).2.Tabled (marked attached o true (t.attach o pUCS)) := by
  obtain ⟨rfl, hdiff⟩ := Classical.not_imp.mp ha
  rw [marked]
  cases hv : vacancy t.pObj with
  | none =>
    rw [attach_full hv, if_pos rfl]
    intro h'
    obtain ⟨i, hi⟩ := h'.slots.slot o (Function.update_self ..)
    exact hdiff (iff_of_true (h.slots.only i o hi) hv)
  | some i =>
    have ho : attached o = true := by
      by_contra ho
      exact hdiff (iff_of_false ho (by simp [hv]))
    rw [attach_ok hv]
    exact (h.withUCS o true).not_occupy (vacancy_eq hv) ho

theorem inv_detach (h : t.Inv attached) (ho : attached o = false) :
    (t.detach o).2.Inv (marked attached o false (t.detach o)) := by
  have hsame : Function.update attached o false = attached :=
    Function.update_eq_self_iff.mpr ho.symm
  rw [SensorTable.detach]
  split
  · rw [marked, if_pos rfl, hsame]
    exact h.withUCS o false
  · rw [marked, if_pos rfl, hsame]
    exact h

/-- The slot keeps the unit that was detached. -/
theorem not_tabled_detach (h : t.Inv attached) (ho : attached o = true) :
    ¬ (t.detach o).2.Tabled (marked attached o false (t.detach o)) := by
  obtain ⟨i, hi⟩ := h.slots.slot o ho
  have hret : (t.detach o).1 = retOk := by
    rw [SensorTable.detach]
    split <;> rfl
  have hkept : (t.detach o).2.pObj i = some o := by
    rw [SensorTable.detach]
    split <;> exact hi
  intro h'
  have hmark := h'.slots.only i o hkept
  rw [marked, if_pos hret, Function.update_self] at hmark
  cases hmark

/-- What FutureTek and SOHA do not call when a unit is detached. -/
theorem inv_final (h : t.Inv attached) :
    (t.final o).2.Inv (marked attached o false (t.final o)) := by
  rw [final]
  split
  next => exact h
  next i hi =>
    rw [marked, if_pos rfl]
    dsimp only
    split
    next =>
      exact (h.stop o).vacate ((congrFun (stop_pObj t o) i).trans (slotOf_eq hi)) (stop_xTaskID hi)
    next hidle => exact h.vacate (slotOf_eq hi) (by simpa using hidle)

section Dotech

variable {t : SensorTable dotechFx3dMax ο}

theorem dotech_attach_full (hv : vacancy t.pObj = none) (pUCS : Option Ret) :
    dotechFx3dAttach t o pUCS = (retObjectFull, t) := by
  rw [dotechFx3dAttach, hv]

theorem dotech_attach_failed {pUCS : Option Ret} (hucs : pUCS ≠ some retOk) :
    ∃ xRet, dotechFx3dAttach t o pUCS = (xRet, t) ∧ xRet ≠ retOk := by
  rw [dotechFx3dAttach]
  cases vacancy t.pObj with
  | none => exact ⟨_, rfl, by decide⟩
  | some i =>
    cases pUCS with
    | none => exact ⟨_, rfl, by decide⟩
    | some xRet =>
      have hne : xRet ≠ retOk := fun heq => hucs (congrArg some heq)
      exact ⟨xRet, by dsimp only; rw [if_pos hne], hne⟩

theorem dotech_attach_ok {i : Fin dotechFx3dMax} (hv : vacancy t.pObj = some i) :
    dotechFx3dAttach t o (some retOk) = (retOk, (t.withUCS o true).occupy o i) := by
  rw [dotechFx3dAttach, hv]
  dsimp only
  rw [if_neg (by simp)]

theorem inv_dotech_attach (h : t.Inv attached) {pUCS : Option Ret}
    (ha : pUCS = some retOk → vacancy t.pObj ≠ none → attached o = false) :
    (dotechFx3dAttach t o pUCS).2.Inv (marked attached o true (dotechFx3dAttach t o pUCS)) := by
  by_cases hucs : pUCS = some retOk
  · subst hucs
    rw [marked]
    cases hv : vacancy t.pObj with
    | none =>
      rw [dotech_attach_full hv, if_neg (show retObjectFull ≠ retOk by decide)]
      exact h
    | some i =>
      rw [dotech_attach_ok hv, if_pos rfl]
      exact (h.withUCS o true).occupy (vacancy_eq hv) (ha rfl (by simp [hv]))
  · obtain ⟨xRet, heq, hne⟩ := dotech_attach_failed (t := t) (o := o) hucs
    rw [marked, heq, if_neg hne]
    exact h

theorem not_tabled_dotech_attach (h : t.Inv attached) {pUCS : Option Ret}
    (ha : ¬ (pUCS = some retOk → vacancy t.pObj ≠ none → attached o = false)) :
    ¬ (dotechFx3dAttach t o pUCS).2.Tabled (marked attached o true (dotechFx3dAttach t o pUCS)) := by
  obtain ⟨rfl, hrest⟩ := Classical.not_imp.mp ha
  obtain ⟨hv, ho⟩ := Classical.not_imp.mp hrest
  obtain ⟨i, hi⟩ := Option.ne_none_iff_exists'.mp hv
  rw [dotech_attach_ok hi]
  exact (h.withUCS o true).not_occupy (vacancy_eq hi) (by simpa using ho)

theorem dotech_detach_eq (t : SensorTable dotechFx3dMax ο) (o : ο) : dotechFx3dDetach t o =
    ((t.final o).1, if (t.final o).1 = retOk ∧ t.pUCS o = true then (t.final o).2.withUCS o false
      else (t.final o).2) := by
  rw [dotechFx3dDetach, final]
  cases slotOf t.pObj o with
  | none =>
    dsimp only
    rw [if_neg fun h => absurd h.1 (by decide)]
  | some i =>
    have hucs : (if (t.xTaskID i).isSome then (t.stop o).2 else t).pUCS = t.pUCS := by
      split
      · exact stop_pUCS t o
      · rfl
    dsimp only [dotechFx3dStop]
    rw [hucs]
    generalize (if (t.xTaskID i).isSome then (t.stop o).2 else t) = t'
    cases t.pUCS o <;> rfl

theorem inv_dotech_detach (h : t.Inv attached) :
    (dotechFx3dDetach t o).2.Inv (marked attached o false (dotechFx3dDetach t o)) := by
  have hfinal := inv_final (o := o) h
  rw [dotech_detach_eq]
  dsimp only
  split
  · exact hfinal.withUCS o false
  · exact hfinal

end Dotech

variable {s u : Sensors ο} {d e : SensorDriver} {b : Bool} {a : SensorAction ο}

theorem call_self (r : Ret × d.Table ο) : (s.call d o b r).table d = r.2 ∧
    (s.call d o b r).attached d = marked (s.attached d) o b r := by
  refine ⟨Function.update_self .., ?_⟩
  rw [call, marked]
  split
  · exact Function.update_self ..
  · rfl

theorem call_other (he : e ≠ d) (r : Ret × d.Table ο) : (s.call d o b r).table e = s.table e ∧
    (s.call d o b r).attached e = s.attached e := by
  refine ⟨Function.update_of_ne he _ _, ?_⟩
  rw [call]
  dsimp only
  split
  · exact Function.update_of_ne he _ _
  · rfl

theorem inv_call (h : s.Inv) {r : Ret × d.Table ο} (hr : r.2.Inv (marked (s.attached d) o b r)) :
    (s.call d o b r).Inv := by
  intro e
  by_cases he : e = d
  · subst he
    rw [(call_self r).1, (call_self r).2]
    exact hr
  · rw [(call_other he r).1, (call_other he r).2]
    exact h e

theorem not_tabled_call {r : Ret × d.Table ο} (hr : ¬ r.2.Tabled (marked (s.attached d) o b r)) :
    ¬ (s.call d o b r).Tabled := by
  intro h
  have h := h d
  rw [(call_self r).1, (call_self r).2] at h
  exact hr h

omit [DecidableEq ο] in
theorem inv_table (h : s.Inv) {t : d.Table ο} (ht : t.Inv (s.attached d)) :
    Inv { s with table := Function.update s.table d t } := by
  intro e
  by_cases he : e = d
  · subst he
    dsimp only
    rw [Function.update_self]
    exact ht
  · dsimp only
    rw [Function.update_of_ne he]
    exact h e

omit [DecidableEq ο] in
theorem inv_start : (start : Sensors ο).Inv := fun _ => inv_cleared

omit [DecidableEq ο] in
theorem Inv.allTabled (h : s.Inv) : s.Tabled := fun d => (h d).tabled

theorem inv_step (h : s.Inv) (ha : s.Allowed a) (hu : s.step a = some u) : u.Inv := by
  cases a with
  | attach d o pUCS =>
    cases hu
    cases d with
    | futuretek => exact inv_call h (inv_attach (h .futuretek) ha)
    | soha => exact inv_call h (inv_attach (h .soha) ha)
    | dotech => exact inv_call h (inv_dotech_attach (h .dotech) ha)
  | run d o xTaskID =>
    rw [step] at hu
    split at hu
    next hfresh =>
      cases hu
      have hid (id : UInt32) (hid : id ∈ xTaskID) : (s.table d).tasks id = none := hfresh id hid d
      cases d with
      | futuretek => exact inv_table h ((h .futuretek).run o retRunning hid)
      | soha => exact inv_table h ((h .soha).run o retRunning hid)
      | dotech => exact inv_table h ((h .dotech).run o retOk hid)
    next => cases hu
  | stop d o =>
    cases hu
    cases d with
    | futuretek => exact inv_table h ((h .futuretek).stop o)
    | soha => exact inv_table h ((h .soha).stop o)
    | dotech => exact inv_table h ((h .dotech).stop o)
  | detach d o =>
    cases hu
    cases d with
    | futuretek => exact inv_call h (inv_detach (h .futuretek) ha)
    | soha => exact inv_call h (inv_detach (h .soha) ha)
    | dotech => exact inv_call h (inv_dotech_detach (h .dotech))

theorem not_tabled_step (h : s.Inv) (ha : ¬ s.Allowed a) (hu : s.step a = some u) : ¬ u.Tabled := by
  cases a with
  | attach d o pUCS =>
    cases hu
    cases d with
    | futuretek => exact not_tabled_call (not_tabled_attach (h .futuretek) ha)
    | soha => exact not_tabled_call (not_tabled_attach (h .soha) ha)
    | dotech => exact not_tabled_call (not_tabled_dotech_attach (h .dotech) ha)
  | run d o xTaskID => exact absurd trivial ha
  | stop d o => exact absurd trivial ha
  | detach d o =>
    cases hu
    cases d with
    | futuretek => exact not_tabled_call (not_tabled_detach (h .futuretek) (by simpa [Allowed] using ha))
    | soha => exact not_tabled_call (not_tabled_detach (h .soha) (by simpa [Allowed] using ha))
    | dotech => exact absurd trivial ha

/-- The tables stay right exactly in the runs whose steps are all allowed. -/
theorem tabled_iff_allowed {acts : List (SensorAction ο)} {t : Sensors ο}
    (ht : exec step acts start = some t) :
    (∀ u, Visits step start acts u → u.Tabled) ↔ ∀ u a, Takes step start acts u a → u.Allowed a :=
  visits_iff_takes inv_start (fun _ _ _ => inv_step) (fun _ h => h.allTabled)
    (fun _ _ _ => not_tabled_step) ht

instance (s : Sensors ο) : DecidablePred s.Allowed := fun a => by
  unfold Allowed
  split <;> infer_instance

/-- A unit of each kind comes and runs, and the one of DOTECH goes and comes back. -/
def comeAndGo : List (SensorAction Nat) :=
  [.attach .futuretek 1 (some retOk), .run .futuretek 1 (some 10), .attach .soha 2 (some retOk),
    .run .soha 2 none, .stop .futuretek 1, .attach .dotech 3 (some retOk), .run .dotech 3 (some 11),
    .detach .dotech 3, .attach .dotech 3 (some retOk), .detach .soha 9]

theorem comeAndGo_tabled : ∃ t, exec step comeAndGo start = some t ∧
    ∀ u, Visits step start comeAndGo u → u.Tabled :=
  ⟨_, rfl, (tabled_iff_allowed rfl).mpr (takes_of_along (by decide))⟩

/-- A FutureTek unit is detached while its task runs. -/
theorem detach_not_tabled : ∃ u, Visits step start
    [.attach .futuretek 1 (some retOk), .run .futuretek 1 (some 10), .detach .futuretek 1] u ∧
      ¬ (u : Sensors Nat).Tabled := by
  refine ⟨_, ⟨_, List.prefix_rfl, rfl⟩, fun h => ?_⟩
  exact absurd ((h .futuretek).tasks 10 1 rfl) (by decide)

end Sensors

end System

end EdgeNode.Obj
