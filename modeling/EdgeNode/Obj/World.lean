import EdgeNode.Lib.Runs
import Mathlib.Logic.Function.Basic

/-! The objects and events of the unit in memory: the registry, the lists of the drivers, the links
between objects and events and between sensor units and their interface objects. -/

namespace EdgeNode.Obj

/-- The driver that the descriptor of an object's type names: those with a list of their own, the
interface objects, the sensor units of `FTE_GUS_attach`, and the rest, which take no children. The
`SHT` and `TURBOMAX` units, which take some in fields of their own and list none, are left out. -/
inductive Desc where
  | di
  | ds18b20
  | ifce
  | gus
  | other
deriving DecidableEq

/-- A live object: `pParent` is of an interface object, `xChildList` of a sensor unit. -/
structure Entry (ο ε : Type) where
  nID : UInt32
  desc : Desc
  pParent : Option ο
  xChildList : List UInt32
  xEventList : List ε

/-- The heap of objects and that of events, each live event with its `xObjectList`, the registry,
and the `_xObjList` of the two drivers that have one. -/
structure World (ο ε : Type) where
  objects : ο → Option (Entry ο ε)
  events : ε → Option (List ο)
  xObjList : List ο
  diList : List ο
  ds18b20List : List ο

/-- How far an `FTE_OBJ_create` gets: it fails in an allocation or in `f_attach`, or in the
insertion into the registry, or it succeeds. -/
inductive Progress where
  | aborted
  | attached
  | inserted
deriving DecidableEq

/-- A call of `FTE_OBJ_create`. `node` is whether the node that `f_attach` appends to a list can be
allocated: the attach functions do not look. -/
structure Creation where
  nID : UInt32
  nDevID : UInt32
  progress : Progress
  node : Bool

inductive Action (ο ε : Type) where
  | create (pObj : ο) (c : Creation)
  | destroy (pObj : ο)
  | eventCreate (pEvent : ε)
  | eventDestroy (pEvent : ε)
  /-- `FTE_OBJ_EVENT_attach`, with the outcome of its two allocations. -/
  | attach (pObj : ο) (pEvent : ε) (objectNode eventNode : Bool)
  | detach (pObj : ο) (pEvent : ε)

def idMask : UInt32 := 0x7F0000FF

/-- `FTE_LIST_pushSort` by the masked identifiers of `FTE_OBJ_comaratorID`. -/
def pushSort {ο : Type} (id : ο → UInt32) (pItem : ο) : List ο → List ο
  | [] => [pItem]
  | p :: ps =>
    if id pItem &&& idMask < id p &&& idMask then pItem :: p :: ps else p :: pushSort id pItem ps

namespace World

variable {ο ε : Type} [DecidableEq ο]

def nID (w : World ο ε) (p : ο) : UInt32 := ((w.objects p).map Entry.nID).getD 0

/-- `FTE_OBJ_get`: the first object of the registry with the identifier. -/
def get (w : World ο ε) (nID : UInt32) : Option ο := w.xObjList.find? fun p => w.nID p == nID

def setObject (w : World ο ε) (p : ο) (e : Option (Entry ο ε)) : World ο ε :=
  { w with objects := Function.update w.objects p e }

def setEvent [DecidableEq ε] (w : World ο ε) (p : ε) (e : Option (List ο)) : World ο ε :=
  { w with events := Function.update w.events p e }

/-- An append whose node is allocated or not. -/
def pushBack {α : Type} (node : Bool) (xs : List α) (x : α) : List α := if node then xs ++ [x] else xs

theorem mem_pushBack {α : Type} {node : Bool} {xs : List α} {x y : α} :
    y ∈ pushBack node xs x ↔ y ∈ xs ∨ (node = true ∧ y = x) := by
  cases node <;> simp [pushBack]

theorem pushBack_of_node {α : Type} {node : Bool} {xs : List α} {x : α} (h : node = false) :
    pushBack node xs x = xs := by
  simp [pushBack, h]

/-- The live sensor unit at an address, whose driver has `FTE_GUS_attachChild`. -/
def unit (w : World ο ε) (p : ο) : Option (Entry ο ε) := (w.objects p).filter (·.desc = .gus)

/-- The `f_attach` functions, where their own resources are there: the object and what they leave
elsewhere. An interface object wants its unit. -/
def fAttach (w : World ο ε) (pObj : ο) (desc : Desc) (c : Creation) :
    Option (Entry ο ε × World ο ε) :=
  let e : Entry ο ε := ⟨c.nID, desc, none, [], []⟩
  match desc with
  | .di => some (e, { w with diList := pushBack c.node w.diList pObj })
  | .ds18b20 => some (e, { w with ds18b20List := pushBack c.node w.ds18b20List pObj })
  | .ifce => do
    let p ← w.get c.nDevID
    let u ← w.unit p
    some ({ e with pParent := some p },
      w.setObject p (some { u with xChildList := pushBack c.node u.xChildList c.nID }))
  | .gus | .other => some (e, w)

/-- The `f_detach` functions, on what they left elsewhere. `FTE_DS18B20_detach` leaves its list. -/
def fDetach (w : World ο ε) (pObj : ο) (e : Entry ο ε) : World ο ε :=
  match e.desc with
  | .di => { w with diList := w.diList.erase pObj }
  | .ifce => match e.pParent with
    | some p => match w.unit p with
      | some u => w.setObject p (some { u with xChildList := u.xChildList.erase e.nID })
      | none => w
    | none => w
  | .ds18b20 | .gus | .other => w

/-- The unit before any object or event is created. -/
structure Start (w : World ο ε) : Prop where
  objects : ∀ o, w.objects o = none
  events : ∀ v, w.events v = none
  lists : w.xObjList = [] ∧ w.diList = [] ∧ w.ds18b20List = []

variable (desc : UInt32 → Option Desc)

/-- `FTE_OBJ_create` at a free address. A failed insertion frees the object and does not detach it. -/
def create (w : World ο ε) (pObj : ο) (c : Creation) : World ο ε :=
  match desc c.nID with
  | none => w
  | some d =>
    if c.progress = .aborted then w
    else match w.fAttach pObj d c with
      | none => w
      | some (e, w) =>
        if c.progress = .attached then w
        else
          let w := w.setObject pObj (some e)
          { w with xObjList := pushSort w.nID pObj w.xObjList }

def destroy (w : World ο ε) (pObj : ο) (e : Entry ο ε) : World ο ε :=
  (fDetach { w with xObjList := w.xObjList.erase pObj } pObj e).setObject pObj none

/-- What a creation comes to: nothing, an attach that is not undone, or a new object. -/
theorem create_cases (w : World ο ε) (o : ο) (c : Creation) :
    w.create desc o c = w ∨ ∃ d e w', desc c.nID = some d ∧ w.fAttach o d c = some (e, w') ∧
      ((c.progress = .attached ∧ w.create desc o c = w') ∨
        (c.progress = .inserted ∧ w.create desc o c = { w'.setObject o (some e) with
          xObjList := pushSort (w'.setObject o (some e)).nID o w'.xObjList })) := by
  cases hd : desc c.nID with
  | none => exact .inl (by simp [create, hd])
  | some d =>
    cases ha : w.fAttach o d c with
    | none => exact .inl (by simp [create, hd, ha])
    | some r =>
      obtain ⟨e, w'⟩ := r
      cases hp : c.progress with
      | aborted => exact .inl (by simp [create, hd, hp])
      | attached => exact .inr ⟨d, e, w', rfl, ha, .inl ⟨rfl, by simp [create, hd, ha, hp]⟩⟩
      | inserted => exact .inr ⟨d, e, w', rfl, ha, .inr ⟨rfl, by simp [create, hd, ha, hp, setObject]⟩⟩

def step [DecidableEq ε] (w : World ο ε) : Action ο ε → Option (World ο ε)
  | .create pObj c => match w.objects pObj with
    | some _ => none
    | none => some (w.create desc pObj c)
  | .destroy pObj => (w.objects pObj).map (w.destroy pObj)
  | .eventCreate pEvent => match w.events pEvent with
    | some _ => none
    | none => some (w.setEvent pEvent (some []))
  | .eventDestroy pEvent => (w.events pEvent).map fun _ => w.setEvent pEvent none
  | .attach pObj pEvent objectNode eventNode => do
    let e ← w.objects pObj
    let os ← w.events pEvent
    some ((w.setObject pObj (some { e with xEventList := pushBack objectNode e.xEventList pEvent })).setEvent
      pEvent (some (pushBack eventNode os pObj)))
  | .detach pObj pEvent => do
    let e ← w.objects pObj
    let os ← w.events pEvent
    some ((w.setObject pObj (some { e with xEventList := e.xEventList.erase pEvent })).setEvent
      pEvent (some (os.erase pObj)))

section Step

variable [DecidableEq ε] {desc} {w w' : World ο ε} {o : ο} {v : ε}

theorem step_create {c : Creation} :
    w.step desc (.create o c) = some w' ↔ w.objects o = none ∧ w.create desc o c = w' := by
  cases h : w.objects o <;> simp [step, h]

theorem step_destroy :
    w.step desc (.destroy o) = some w' ↔ ∃ e, w.objects o = some e ∧ w.destroy o e = w' := by
  simp [step]

theorem step_eventCreate :
    w.step desc (.eventCreate v) = some w' ↔ w.events v = none ∧ w.setEvent v (some []) = w' := by
  cases h : w.events v <;> simp [step, h]

theorem step_eventDestroy :
    w.step desc (.eventDestroy v) = some w' ↔
      (∃ os, w.events v = some os) ∧ w.setEvent v none = w' := by
  simp [step]

theorem step_attach {objectNode eventNode : Bool} :
    w.step desc (.attach o v objectNode eventNode) = some w' ↔
      ∃ e os, w.objects o = some e ∧ w.events v = some os ∧
        (w.setObject o (some { e with xEventList := pushBack objectNode e.xEventList v })).setEvent v
          (some (pushBack eventNode os o)) = w' := by
  simp [step, Option.bind_eq_some_iff]

theorem step_detach :
    w.step desc (.detach o v) = some w' ↔
      ∃ e os, w.objects o = some e ∧ w.events v = some os ∧
        (w.setObject o (some { e with xEventList := e.xEventList.erase v })).setEvent v
          (some (os.erase o)) = w' := by
  simp [step, Option.bind_eq_some_iff]

/-- The other calls set an event, and in an object its list of events. -/
theorem step_links {a : Action ο ε} (hs : w.step desc a = some w') (hc : ∀ o c, a ≠ .create o c)
    (hd : ∀ o, a ≠ .destroy o) : ∃ u v os, w' = setEvent u v os ∧
      (u = w ∨ ∃ p e vs, w.objects p = some e ∧
        u = w.setObject p (some { e with xEventList := vs })) := by
  cases a with
  | create o c => exact absurd rfl (hc o c)
  | destroy o => exact absurd rfl (hd o)
  | eventCreate v =>
    obtain ⟨-, rfl⟩ := step_eventCreate.mp hs
    exact ⟨w, v, _, rfl, .inl rfl⟩
  | eventDestroy v =>
    obtain ⟨-, rfl⟩ := step_eventDestroy.mp hs
    exact ⟨w, v, _, rfl, .inl rfl⟩
  | attach o v objectNode eventNode =>
    obtain ⟨e, os, he, -, rfl⟩ := step_attach.mp hs
    exact ⟨_, v, _, rfl, .inr ⟨o, e, _, he, rfl⟩⟩
  | detach o v =>
    obtain ⟨e, os, he, -, rfl⟩ := step_detach.mp hs
    exact ⟨_, v, _, rfl, .inr ⟨o, e, _, he, rfl⟩⟩

end Step

section Runs

def empty : World Nat Nat := ⟨fun _ => none, fun _ => none, [], [], []⟩

theorem start_empty : empty.Start := ⟨fun _ => rfl, fun _ => rfl, rfl, rfl, rfl⟩

/-- The types of a digital input, a digital output, a `DS18B20`, the sensor unit `MV250HT` and an
interface object. -/
def someTypes (nID : UInt32) : Option Desc :=
  if nID &&& 0x7FFF0000 = 0x05000000 then some .di
  else if nID &&& 0x7FFF0000 = 0x06000000 then some .other
  else if nID &&& 0x7FFF0000 = 0x01020000 then some .ds18b20
  else if nID &&& 0x7FFF0000 = 0x7E020000 then some .gus
  else if nID &&& 0x7FFF0000 = 0x01800000 then some .ifce
  else none

def created (nID : UInt32) : Creation := ⟨nID, 0, .inserted, true⟩

end Runs

end World

end EdgeNode.Obj
