import EdgeNode.Lib.Forest
import EdgeNode.Lib.Runs
import Mathlib.Data.Fin.VecNotation
import Mathlib.Data.Fintype.Basic
import Mathlib.Logic.Function.Basic

/-! Starting and stopping the objects of a tree. -/

namespace EdgeNode.Obj

open Forests

/-- What `FTE_OBJ_start` and `FTE_OBJ_stop` ask of the objects: identifiers, `FTE_OBJ_get`, whether
the driver has an `fRun` and an `fStop`, and the answers of its `fGetChild` to the indices below
`fGetChildCount`. -/
structure Objects (ο : Type) where
  nID : ο → UInt32
  nDevID : ο → UInt32
  get : UInt32 → Option ο
  fRun : ο → Bool
  fStop : ο → Bool
  fGetChild : ο → List (Option UInt32)

namespace Objects

variable {ο : Type} (t : Objects ο)

def isChild (pObj : ο) : Bool := (t.nID pObj >>> 16) &&& 0x80 == 0x80

def parent (pObj : ο) : Option ο := if t.isChild pObj then t.get (t.nDevID pObj) else none

/-- The children that a traversal finds. -/
def kids (pObj : ο) : List ο := (t.fGetChild pObj).filterMap fun xChildID => xChildID.bind t.get

end Objects

/-- Objects whose children are those with the parent, each listed once, without cycles. -/
structure Tree (ο : Type) extends Objects ο where
  mem_kids : ∀ c p, c ∈ toObjects.kids p ↔ toObjects.parent c = some p
  nodup : ∀ p, (toObjects.kids p).Nodup
  height : ο → Nat
  height_lt : ∀ p, ∀ c ∈ toObjects.kids p, height c < height p

inductive Call (ο : Type) where
  | fRun (pObj : ο)
  | fStop (pObj : ο)
deriving DecidableEq

/-- The objects with `FTE_OBJ_CONFIG_FLAG_ENABLE`, and the calls of `fRun` and `fStop` so far. -/
structure Activity (ο : Type) where
  enabled : ο → Bool
  calls : List (Call ο)

/-- A call of the three functions, with what each driver returns: a traversal calls an object once
at most, and `FTE_OBJ_activate` has a second one over the children. -/
inductive Activation (ο : Type) where
  | start (pObj : ο) (ok : ο → Bool)
  | stop (pObj : ο) (ok : ο → Bool)
  | activate (pObj : ο) (enabled : Bool) (ok again : ο → Bool)

namespace Tree

variable {ο : Type} (t : Tree ο)

def forest : Forest ο where
  kids := t.kids
  height := t.height
  height_lt := t.height_lt
  parent_unique hp hq := Option.some.inj (((t.mem_kids _ _).mp hp).symm.trans ((t.mem_kids _ _).mp hq))
  nodup := t.nodup

variable [DecidableEq ο]

/-- `FTE_OBJ_start` up to the children. -/
def run (ok : ο → Bool) (s : Activity ο) (pObj : ο) : Activity ο × Bool :=
  if !t.fRun pObj then (s, false)
  else if t.isChild pObj && !(t.get (t.nDevID pObj)).any s.enabled then (s, false)
  else
    let calls := s.calls ++ [.fRun pObj]
    if ok pObj then (⟨Function.update s.enabled pObj true, calls⟩, true) else (⟨s.enabled, calls⟩, false)

/-- `FTE_OBJ_stop` up to the children. -/
def halt (ok : ο → Bool) (s : Activity ο) (pObj : ο) : Activity ο × Bool :=
  if !t.fStop pObj then (s, false)
  else
    let calls := s.calls ++ [.fStop pObj]
    if ok pObj then (⟨Function.update s.enabled pObj false, calls⟩, true) else (⟨s.enabled, calls⟩, false)

/-- `FTE_OBJ_start`, which starts the children too, and whether it returns `FTE_RET_OK`. -/
def start (ok : ο → Bool) (s : Activity ο) (pObj : ο) : Activity ο × Bool :=
  t.forest.walk (t.run ok) s pObj

def stop (ok : ο → Bool) (s : Activity ο) (pObj : ο) : Activity ο × Bool :=
  t.forest.walk (t.halt ok) s pObj

/-- `FTE_OBJ_activate`: after a start or stop that succeeds, one of each child. -/
def activate (s : Activity ο) (pObj : ο) (enabled : Bool) (ok again : ο → Bool) : Activity ο :=
  if enabled then
    if s.enabled pObj then s
    else match t.start ok s pObj with
      | (s, true) => (t.kids pObj).foldl (fun s pChild => (t.start again s pChild).1) s
      | (s, false) => s
  else
    if s.enabled pObj then match t.stop ok s pObj with
      | (s, true) => (t.kids pObj).foldl (fun s pChild => (t.stop again s pChild).1) s
      | (s, false) => s
    else s

def step (s : Activity ο) : Activation ο → Option (Activity ο)
  | .start pObj ok => some (t.start ok s pObj).1
  | .stop pObj ok => some (t.stop ok s pObj).1
  | .activate pObj enabled ok again => some (t.activate s pObj enabled ok again)

/-- No object is enabled and no driver was called. -/
def idle : Activity ο := ⟨fun _ => false, []⟩

/-- A sensor unit with one interface object, at the addresses 0 and 1. -/
def unitTree : Tree (Fin 2) where
  nID := ![0x7E020001, 0x01800001]
  nDevID := ![0, 0x7E020001]
  get nID := if nID = 0x7E020001 then some 0 else if nID = 0x01800001 then some 1 else none
  fRun _ := true
  fStop _ := true
  fGetChild := ![[some 0x01800001], []]
  mem_kids := by decide
  nodup := by decide
  height := ![1, 0]
  height_lt := by decide

end Tree

end EdgeNode.Obj
