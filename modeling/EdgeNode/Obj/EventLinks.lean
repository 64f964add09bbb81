import EdgeNode.Lib.MutualLists
import EdgeNode.Obj.World

/-! When the links between objects and events stay mutual and live. -/

namespace EdgeNode.Obj.World

open Runs MutualLists

variable {ο ε : Type}

/-- The event list at an address, of no object an empty one. -/
def eventsOf (w : World ο ε) (o : ο) : List ε := ((w.objects o).map Entry.xEventList).getD []

def objectsOf (w : World ο ε) (v : ε) : List ο := (w.events v).getD []

/-- Every pointer in an event list is to a live event that has the object in its list, and every
pointer in an object list is to a live object that has the event in its list. -/
structure Linked (w : World ο ε) : Prop where
  toEvent : ∀ o e, w.objects o = some e → ∀ v ∈ e.xEventList, ∃ os, w.events v = some os ∧ o ∈ os
  toObject : ∀ v os, w.events v = some os → ∀ o ∈ os, ∃ e, w.objects o = some e ∧ v ∈ e.xEventList

theorem mem_eventsOf {w : World ο ε} {o : ο} {v : ε} :
    v ∈ w.eventsOf o ↔ ∃ e, w.objects o = some e ∧ v ∈ e.xEventList := by
  cases h : w.objects o <;> simp [eventsOf, h]

theorem mem_objectsOf {w : World ο ε} {o : ο} {v : ε} :
    o ∈ w.objectsOf v ↔ ∃ os, w.events v = some os ∧ o ∈ os := by
  cases h : w.events v <;> simp [objectsOf, h]

theorem linked_iff_mutual {w : World ο ε} : w.Linked ↔ Mutual w.eventsOf w.objectsOf := by
  constructor
  · intro h o v
    rw [mem_eventsOf, mem_objectsOf]
    constructor
    · rintro ⟨e, he, hv⟩
      exact h.toEvent o e he v hv
    · rintro ⟨os, hos, ho⟩
      exact h.toObject v os hos o ho
  · intro h
    refine ⟨fun o e he v hv => ?_, fun v os hos o ho => ?_⟩
    · exact mem_objectsOf.mp ((h o v).mp (mem_eventsOf.mpr ⟨e, he, hv⟩))
    · exact mem_eventsOf.mp ((h o v).mpr (mem_objectsOf.mpr ⟨os, hos, ho⟩))

theorem Start.linked {w : World ο ε} (h : w.Start) : w.Linked :=
  ⟨fun o e he => by simp [h.objects o] at he, fun v os hos => by simp [h.events v] at hos⟩

@[simp] theorem objectsOf_setEvent [DecidableEq ε] (w : World ο ε) (p : ε) (os : Option (List ο)) :
    (w.setEvent p os).objectsOf = Function.update w.objectsOf p (os.getD []) := by
  funext v
  by_cases h : v = p
  · subst h
    simp [objectsOf, setEvent]
  · simp [objectsOf, setEvent, h]

@[simp] theorem eventsOf_setEvent [DecidableEq ε] (w : World ο ε) (p : ε) (os : Option (List ο)) :
    (w.setEvent p os).eventsOf = w.eventsOf := rfl

variable [DecidableEq ο]

@[simp] theorem eventsOf_setObject (w : World ο ε) (p : ο) (e : Option (Entry ο ε)) :
    (w.setObject p e).eventsOf = Function.update w.eventsOf p ((e.map Entry.xEventList).getD []) := by
  funext o
  by_cases h : o = p
  · subst h
    simp [eventsOf, setObject]
  · simp [eventsOf, setObject, h]

@[simp] theorem objectsOf_setObject (w : World ο ε) (p : ο) (e : Option (Entry ο ε)) :
    (w.setObject p e).objectsOf = w.objectsOf := rfl

theorem eventsOf_setChildren {w : World ο ε} {p : ο} {u : Entry ο ε} (h : w.unit p = some u)
    (ids : List UInt32) : (w.setObject p (some { u with xChildList := ids })).eventsOf = w.eventsOf := by
  have hp : w.eventsOf p = u.xEventList := by
    simp [eventsOf, (Option.filter_eq_some_iff.mp h).1]
  rw [eventsOf_setObject, Option.map_some, Option.getD_some, ← hp, Function.update_eq_self]

theorem fAttach_links {w w' : World ο ε} {o : ο} {d : Desc} {c : Creation} {e : Entry ο ε}
    (h : w.fAttach o d c = some (e, w')) :
    e.xEventList = [] ∧ w'.eventsOf = w.eventsOf ∧ w'.objectsOf = w.objectsOf := by
  cases d with
  | ifce =>
    simp only [fAttach, bind, Option.bind_eq_some_iff, Option.some.injEq, Prod.mk.injEq] at h
    obtain ⟨p, -, u, hu, rfl, rfl⟩ := h
    exact ⟨rfl, eventsOf_setChildren hu _, rfl⟩
  | _ =>
    simp only [fAttach, Option.some.injEq, Prod.mk.injEq] at h
    obtain ⟨rfl, rfl⟩ := h
    exact ⟨rfl, rfl, rfl⟩

theorem fDetach_links (w : World ο ε) (o : ο) (e : Entry ο ε) :
    (w.fDetach o e).eventsOf = w.eventsOf ∧ (w.fDetach o e).objectsOf = w.objectsOf := by
  unfold fDetach
  split
  · exact ⟨rfl, rfl⟩
  · split
    · split
      · rename_i hu
        exact ⟨eventsOf_setChildren hu _, rfl⟩
      · exact ⟨rfl, rfl⟩
    · exact ⟨rfl, rfl⟩
  · exact ⟨rfl, rfl⟩
  · exact ⟨rfl, rfl⟩
  · exact ⟨rfl, rfl⟩

theorem create_links (desc : UInt32 → Option Desc) {w : World ο ε} {o : ο} (h : w.objects o = none)
    (c : Creation) : (w.create desc o c).eventsOf = w.eventsOf ∧
      (w.create desc o c).objectsOf = w.objectsOf := by
  obtain heq | ⟨d, e, w', -, ha, hc⟩ := w.create_cases desc o c
  · rw [heq]
    exact ⟨rfl, rfl⟩
  · obtain ⟨he, hev, hob⟩ := fAttach_links ha
    obtain ⟨-, heq⟩ | ⟨-, heq⟩ := hc
    · rw [heq]
      exact ⟨hev, hob⟩
    · have hnil : w.eventsOf o = [] := by simp [eventsOf, h]
      have hset := eventsOf_setObject w' o (some e)
      rw [Option.map_some, Option.getD_some, he, hev, ← hnil, Function.update_eq_self] at hset
      rw [heq]
      exact ⟨hset, hob⟩

theorem destroy_links (w : World ο ε) (o : ο) (e : Entry ο ε) :
    (w.destroy o e).eventsOf = Function.update w.eventsOf o [] ∧
      (w.destroy o e).objectsOf = w.objectsOf := by
  obtain ⟨hev, hob⟩ := fDetach_links { w with xObjList := w.xObjList.erase o } o e
  rw [destroy, eventsOf_setObject, objectsOf_setObject, hev, hob]
  exact ⟨rfl, rfl⟩

variable [DecidableEq ε]

/-- The steps that keep the links: an object is destroyed without events and an event without
objects, the two pushes of an attach succeed or fail together unless the pair is linked, and a
detach leaves the pair linked, where it was linked twice, on both sides or on neither. -/
def LinkAllowed (w : World ο ε) : Action ο ε → Prop
  | .destroy o => w.eventsOf o = []
  | .eventDestroy v => w.objectsOf v = []
  | .attach o v objectNode eventNode => objectNode = eventNode ∨ v ∈ w.eventsOf o
  | .detach o v => v ∈ (w.eventsOf o).erase v ↔ o ∈ (w.objectsOf v).erase o
  | _ => True

variable {desc : UInt32 → Option Desc}

/-- Both lists of a pair change. -/
theorem relink_links {w : World ο ε} {o : ο} {v : ε} {e : Entry ο ε} {os : List ο}
    (he : w.objects o = some e) (hos : w.events v = some os) (f : List ε → List ε)
    (g : List ο → List ο) :
    ((w.setObject o (some { e with xEventList := f e.xEventList })).setEvent v
      (some (g os))).eventsOf = Function.update w.eventsOf o (f (w.eventsOf o)) ∧
    ((w.setObject o (some { e with xEventList := f e.xEventList })).setEvent v
      (some (g os))).objectsOf = Function.update w.objectsOf v (g (w.objectsOf v)) := by
  have hev : w.eventsOf o = e.xEventList := by simp [eventsOf, he]
  have hob : w.objectsOf v = os := by simp [objectsOf, hos]
  simp [hev, hob]

theorem linked_step_iff {w w' : World ο ε} (h : w.Linked) {a : Action ο ε}
    (hs : w.step desc a = some w') : w'.Linked ↔ w.LinkAllowed a := by
  rw [linked_iff_mutual] at h ⊢
  cases a with
  | create o c =>
    obtain ⟨ho, rfl⟩ := step_create.mp hs
    obtain ⟨hev, hob⟩ := create_links desc ho c
    rw [hev, hob]
    exact iff_of_true h trivial
  | destroy o =>
    obtain ⟨e, -, rfl⟩ := step_destroy.mp hs
    obtain ⟨hev, hob⟩ := destroy_links w o e
    rw [hev, hob]
    exact h.forget_iff o
  | eventCreate v =>
    obtain ⟨hv, rfl⟩ := step_eventCreate.mp hs
    have hnil : w.objectsOf v = [] := by simp [objectsOf, hv]
    rw [eventsOf_setEvent, objectsOf_setEvent, Option.getD_some, ← hnil, Function.update_eq_self]
    exact iff_of_true h trivial
  | eventDestroy v =>
    obtain ⟨-, rfl⟩ := step_eventDestroy.mp hs
    rw [eventsOf_setEvent, objectsOf_setEvent, Option.getD_none, mutual_comm]
    exact h.symm.forget_iff v
  | attach o v objectNode eventNode =>
    obtain ⟨e, os, he, hos, rfl⟩ := step_attach.mp hs
    obtain ⟨hev, hob⟩ := relink_links he hos (fun vs => pushBack objectNode vs v)
      fun os => pushBack eventNode os o
    rw [hev, hob,
      h.update_iff (by simp +contextual [mem_pushBack]) (by simp +contextual [mem_pushBack]),
      mem_pushBack, mem_pushBack, ← h o v]
    cases objectNode <;> cases eventNode <;> simp [LinkAllowed]
  | detach o v =>
    obtain ⟨e, os, he, hos, rfl⟩ := step_detach.mp hs
    obtain ⟨hev, hob⟩ := relink_links he hos (fun vs => vs.erase v) fun os => os.erase o
    rw [hev, hob]
    exact h.erase_iff o v

/-- The links stay mutual and live through a run exactly when all its steps keep them. -/
theorem linked_iff_allowed {w t : World ο ε} (hw : w.Start) {acts : List (Action ο ε)}
    (ht : exec (step desc) acts w = some t) :
    (∀ u, Visits (step desc) w acts u → u.Linked) ↔
      ∀ u a, Takes (step desc) w acts u a → u.LinkAllowed a :=
  visits_iff_takes_of_step hw.linked (fun _ _ _ h hs => linked_step_iff h hs) ht

section Runs

instance (w : World ο ε) : DecidablePred w.LinkAllowed := fun a => by
  cases a <;> (unfold LinkAllowed; infer_instance)

/-- An object is destroyed while an event is attached: the event keeps the pointer. -/
theorem destroyed_object_linked :
    empty.Start ∧ ∃ u, exec (step someTypes) [.create 1 (created 0x05000001), .eventCreate 1,
      .attach 1 1 true true, .destroy 1] empty = some u ∧ ¬ u.Linked := by
  refine ⟨start_empty, _, rfl, fun h => ?_⟩
  obtain ⟨e, he, -⟩ := h.toObject 1 [1] rfl 1 List.mem_cons_self
  cases he

theorem detached_object_unlinked :
    ∃ u, exec (step someTypes) [.create 1 (created 0x05000001), .eventCreate 1, .attach 1 1 true true,
      .detach 1 1, .destroy 1] empty = some u ∧ u.events 1 = some [] ∧ u.Linked := by
  obtain ⟨u, hu, he⟩ : ∃ u, exec (step someTypes) [.create 1 (created 0x05000001), .eventCreate 1,
      .attach 1 1 true true, .detach 1 1, .destroy 1] empty = some u ∧ u.events 1 = some [] :=
    ⟨_, rfl, rfl⟩
  exact ⟨u, hu, he, (linked_iff_allowed start_empty hu).mpr (takes_of_along (by decide)) u
    ⟨_, List.prefix_rfl, hu⟩⟩

end Runs

end EdgeNode.Obj.World
