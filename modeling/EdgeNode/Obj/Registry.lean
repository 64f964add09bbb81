import EdgeNode.Obj.World
import Mathlib.Data.List.Nodup

/-! When the registry and the lists of the drivers hold live objects only. -/

namespace EdgeNode.Obj.World

open Runs

variable {ο ε : Type}

/-- Every pointer of the registry or of a driver's list is to a live object. -/
def Held (w : World ο ε) : Prop :=
  ∀ o, o ∈ w.xObjList ∨ o ∈ w.diList ∨ o ∈ w.ds18b20List → (w.objects o).isSome

def SameLists (w w' : World ο ε) : Prop :=
  w'.xObjList = w.xObjList ∧ w'.diList = w.diList ∧ w'.ds18b20List = w.ds18b20List

/-- The driver of the object at an address. -/
def descOf (w : World ο ε) (o : ο) : Option Desc := (w.objects o).map Entry.desc

theorem isSome_objects {w : World ο ε} {o : ο} : (w.objects o).isSome = (w.descOf o).isSome := by
  simp [descOf]

theorem nodup_pushBack {node : Bool} {xs : List ο} {x : ο} (h : xs.Nodup) (hx : x ∉ xs) :
    (pushBack node xs x).Nodup := by
  cases node with
  | false => exact h
  | true =>
    rw [pushBack, if_pos rfl, ← List.concat_eq_append]
    exact List.Nodup.concat hx h

theorem mem_listed {d k : Desc} {node : Bool} {xs : List ο} {x y : ο}
    (h : y ∈ if d = k then pushBack node xs x else xs) : y ∈ xs ∨ (y = x ∧ d = k) := by
  split at h
  · rename_i hd
    exact (mem_pushBack.mp h).imp_right fun hy => ⟨hy.2, hd⟩
  · exact .inl h

theorem pushSort_perm (id : ο → UInt32) (o : ο) (l : List ο) : (pushSort id o l).Perm (o :: l) := by
  induction l with
  | nil => exact List.Perm.refl _
  | cons p ps ih =>
    rw [pushSort]
    split
    · exact List.Perm.refl _
    · exact (ih.cons p).trans (List.Perm.swap o p ps)

/-- Each list holds an object once, and a driver's list holds objects of the driver. -/
structure RegistryInv (w : World ο ε) : Prop where
  registered : ∀ o ∈ w.xObjList, (w.descOf o).isSome
  nodup : w.xObjList.Nodup
  di : ∀ o ∈ w.diList, w.descOf o = some .di
  diNodup : w.diList.Nodup
  ds18b20 : ∀ o ∈ w.ds18b20List, w.descOf o = some .ds18b20

theorem RegistryInv.held {w : World ο ε} (h : w.RegistryInv) : w.Held := by
  rintro o (ho | ho | ho) <;> rw [isSome_objects]
  · exact h.registered o ho
  · rw [h.di o ho]
    rfl
  · rw [h.ds18b20 o ho]
    rfl

theorem Start.registryInv {w : World ο ε} (h : w.Start) : w.RegistryInv := by
  obtain ⟨hx, hdi, hds⟩ := h.lists
  exact ⟨by simp [hx], by simp [hx], by simp [hdi], by simp [hdi], by simp [hds]⟩

theorem RegistryInv.of_eq {w w' : World ο ε} (h : w.RegistryInv) (hd : w'.descOf = w.descOf)
    (hl : w.SameLists w') : w'.RegistryInv := by
  obtain ⟨hx, hdi, hds⟩ := hl
  exact ⟨by rw [hx, hd]; exact h.registered, by rw [hx]; exact h.nodup, by rw [hdi, hd]; exact h.di,
    by rw [hdi]; exact h.diNodup, by rw [hds, hd]; exact h.ds18b20⟩

variable [DecidableEq ο]

theorem descOf_setObject (w : World ο ε) (p : ο) (e : Option (Entry ο ε)) :
    (w.setObject p e).descOf = Function.update w.descOf p (e.map Entry.desc) := by
  funext o
  by_cases h : o = p
  · subst h
    simp [descOf, setObject]
  · simp [descOf, setObject, h]

theorem descOf_setChildren {w : World ο ε} {p : ο} {u : Entry ο ε} (h : w.unit p = some u)
    (ids : List UInt32) : (w.setObject p (some { u with xChildList := ids })).descOf = w.descOf := by
  have hp : w.descOf p = some u.desc := by
    simp [descOf, (Option.filter_eq_some_iff.mp h).1]
  rw [descOf_setObject, Option.map_some, ← hp, Function.update_eq_self]

theorem fAttach_lists {w w' : World ο ε} {o : ο} {d : Desc} {c : Creation} {e : Entry ο ε}
    (h : w.fAttach o d c = some (e, w')) : e.desc = d ∧ w'.descOf = w.descOf ∧
      w'.xObjList = w.xObjList ∧
      w'.diList = (if d = .di then pushBack c.node w.diList o else w.diList) ∧
      w'.ds18b20List = (if d = .ds18b20 then pushBack c.node w.ds18b20List o else w.ds18b20List) := by
  cases d with
  | ifce =>
    simp only [fAttach, bind, Option.bind_eq_some_iff, Option.some.injEq, Prod.mk.injEq] at h
    obtain ⟨p, -, u, hu, rfl, rfl⟩ := h
    exact ⟨rfl, descOf_setChildren hu _, rfl, rfl, rfl⟩
  | _ =>
    simp only [fAttach, Option.some.injEq, Prod.mk.injEq] at h
    obtain ⟨rfl, rfl⟩ := h
    exact ⟨rfl, rfl, rfl, rfl, rfl⟩

theorem fDetach_lists (w : World ο ε) (o : ο) (e : Entry ο ε) :
    (w.fDetach o e).descOf = w.descOf ∧ (w.fDetach o e).xObjList = w.xObjList ∧
      (w.fDetach o e).diList = (if e.desc = .di then w.diList.erase o else w.diList) ∧
      (w.fDetach o e).ds18b20List = w.ds18b20List := by
  unfold fDetach
  cases hd : e.desc with
  | ifce =>
    cases e.pParent with
    | none => exact ⟨rfl, rfl, rfl, rfl⟩
    | some p =>
      cases hu : w.unit p with
      | none => simp [hu]
      | some u =>
        simp only [hu]
        exact ⟨descOf_setChildren hu _, rfl, rfl, rfl⟩
  | _ => exact ⟨rfl, rfl, rfl, rfl⟩

variable (desc : UInt32 → Option Desc)

/-- The steps that keep the lists: no creation of an object of a driver with a list fails after it
has been listed, and no listed `DS18B20` is destroyed. -/
def RegistryAllowed (w : World ο ε) : Action ο ε → Prop
  | .create _ c => c.progress = .attached → c.node = true →
      desc c.nID ≠ some .di ∧ desc c.nID ≠ some .ds18b20
  | .destroy o => o ∉ w.ds18b20List
  | _ => True

variable {desc}

theorem sameLists_of_attached {w w' : World ο ε} {o : ο} {c : Creation} {d : Desc} {e : Entry ο ε}
    (hd : desc c.nID = some d) (ha : w.fAttach o d c = some (e, w')) (hp : c.progress = .attached)
    (hallow : w.RegistryAllowed desc (.create o c)) : w.SameLists w' := by
  obtain ⟨-, -, hx, hdi, hds⟩ := fAttach_lists ha
  cases hn : c.node with
  | false => exact ⟨hx, by simp [hdi, pushBack_of_node hn], by simp [hds, pushBack_of_node hn]⟩
  | true =>
    obtain ⟨h₁, h₂⟩ := hallow hp hn
    rw [hd] at h₁ h₂
    exact ⟨hx, by rw [hdi, if_neg (mt (congrArg some) h₁)], by rw [hds, if_neg (mt (congrArg some) h₂)]⟩

/-- What a new object leaves: the registry takes it, and the list of its driver. -/
theorem inserted_lists {w w' : World ο ε} {o : ο} {c : Creation} {d : Desc} {e : Entry ο ε}
    (ha : w.fAttach o d c = some (e, w')) (id : ο → UInt32) {t : World ο ε}
    (ht : t = { w'.setObject o (some e) with xObjList := pushSort id o w'.xObjList }) :
    t.descOf = Function.update w.descOf o (some d) ∧ t.xObjList.Perm (o :: w.xObjList) ∧
      t.diList = (if d = .di then pushBack c.node w.diList o else w.diList) ∧
      t.ds18b20List = (if d = .ds18b20 then pushBack c.node w.ds18b20List o else w.ds18b20List) := by
  obtain ⟨he, hdesc, hx, hdi, hds⟩ := fAttach_lists ha
  subst ht
  refine ⟨?_, ?_, hdi, hds⟩
  · exact (descOf_setObject w' o (some e)).trans (by rw [hdesc, Option.map_some, he])
  · rw [← hx]
    exact pushSort_perm id o w'.xObjList

theorem RegistryInv.create {w : World ο ε} (h : w.RegistryInv) {o : ο} (ho : w.objects o = none)
    {c : Creation} (hallow : w.RegistryAllowed desc (.create o c)) :
    (w.create desc o c).RegistryInv := by
  obtain heq | ⟨d, e, w', hd, ha, ⟨hp, heq⟩ | ⟨hp, heq⟩⟩ := w.create_cases desc o c
  · rw [heq]
    exact h
  · rw [heq]
    exact h.of_eq (fAttach_lists ha).2.1 (sameLists_of_attached hd ha hp hallow)
  · obtain ⟨hdesc, hperm, hdi, hds⟩ := inserted_lists ha _ heq
    have hfree : w.descOf o = none := by simp [descOf, ho]
    have hkeep : ∀ p k, w.descOf p = some k → (w.create desc o c).descOf p = some k := by
      intro p k hk
      have hne : p ≠ o := by
        rintro rfl
        simp [hfree] at hk
      rw [hdesc, Function.update_of_ne hne, hk]
    have hself : (w.create desc o c).descOf o = some d := by rw [hdesc, Function.update_self]
    have hout : o ∉ w.xObjList := fun hm => by simpa [hfree] using h.registered o hm
    refine ⟨fun p hp => ?_, ?_, fun p hp => ?_, ?_, fun p hp => ?_⟩
    · rcases List.mem_cons.mp (hperm.mem_iff.mp hp) with rfl | hp
      · rw [hself]
        rfl
      · obtain ⟨k, hk⟩ := Option.isSome_iff_exists.mp (h.registered p hp)
        rw [hkeep p k hk]
        rfl
    · exact hperm.nodup_iff.mpr (List.nodup_cons.mpr ⟨hout, h.nodup⟩)
    · rw [hdi] at hp
      rcases mem_listed hp with hp | ⟨rfl, hdd⟩
      · exact hkeep p _ (h.di p hp)
      · rw [hself, hdd]
    · have hdo : o ∉ w.diList := fun hm => by simpa [hfree] using h.di o hm
      rw [hdi]
      split
      · exact nodup_pushBack h.diNodup hdo
      · exact h.diNodup
    · rw [hds] at hp
      rcases mem_listed hp with hp | ⟨rfl, hdd⟩
      · exact hkeep p _ (h.ds18b20 p hp)
      · rw [hself, hdd]

/-- What a destroyed object leaves: every list but that of the `DS18B20` driver lets it go. -/
theorem destroy_lists (w : World ο ε) (o : ο) (e : Entry ο ε) :
    (w.destroy o e).descOf = Function.update w.descOf o none ∧
      (w.destroy o e).xObjList = w.xObjList.erase o ∧
      (w.destroy o e).diList = (if e.desc = .di then w.diList.erase o else w.diList) ∧
      (w.destroy o e).ds18b20List = w.ds18b20List := by
  obtain ⟨hdesc, hx, hdi, hds⟩ := fDetach_lists { w with xObjList := w.xObjList.erase o } o e
  refine ⟨?_, hx, hdi, hds⟩
  rw [destroy, descOf_setObject, hdesc]
  rfl

theorem RegistryInv.destroy {w : World ο ε} (h : w.RegistryInv) {o : ο} {e : Entry ο ε}
    (he : w.objects o = some e) (ho : o ∉ w.ds18b20List) : (w.destroy o e).RegistryInv := by
  obtain ⟨hdesc, hx, hdi, hds⟩ := destroy_lists w o e
  have hof : w.descOf o = some e.desc := by simp [descOf, he]
  have hkeep : ∀ p, p ≠ o → (w.destroy o e).descOf p = w.descOf p := by
    intro p hp
    rw [hdesc, Function.update_of_ne hp]
  refine ⟨fun p hp => ?_, ?_, fun p hp => ?_, ?_, fun p hp => ?_⟩
  · rw [hx, h.nodup.mem_erase_iff] at hp
    rw [hkeep p hp.1]
    exact h.registered p hp.2
  · rw [hx]
    exact h.nodup.erase o
  · rw [hdi] at hp
    split at hp
    · rw [h.diNodup.mem_erase_iff] at hp
      rw [hkeep p hp.1]
      exact h.di p hp.2
    · rename_i hd
      have hne : p ≠ o := by
        rintro rfl
        exact hd (Option.some.inj (hof.symm.trans (h.di p hp)))
      rw [hkeep p hne]
      exact h.di p hp
  · rw [hdi]
    split
    · exact h.diNodup.erase o
    · exact h.diNodup
  · rw [hds] at hp
    have hne : p ≠ o := fun hpo => ho (hpo ▸ hp)
    rw [hkeep p hne]
    exact h.ds18b20 p hp

theorem descOf_setEvents {w : World ο ε} {p : ο} {e : Entry ο ε} (h : w.objects p = some e)
    (vs : List ε) : (w.setObject p (some { e with xEventList := vs })).descOf = w.descOf := by
  have hp : w.descOf p = some e.desc := by simp [descOf, h]
  rw [descOf_setObject, Option.map_some, ← hp, Function.update_eq_self]

variable [DecidableEq ε]

theorem registryInv_step {w w' : World ο ε} (h : w.RegistryInv) {a : Action ο ε}
    (ha : w.RegistryAllowed desc a) (hs : w.step desc a = some w') : w'.RegistryInv := by
  cases a with
  | create o c =>
    obtain ⟨ho, rfl⟩ := step_create.mp hs
    exact h.create ho ha
  | destroy o =>
    obtain ⟨e, he, rfl⟩ := step_destroy.mp hs
    exact h.destroy he ha
  | _ =>
    obtain ⟨u, v, os, rfl, rfl | ⟨p, e, vs, he, rfl⟩⟩ := step_links hs nofun nofun
    · exact h.of_eq rfl ⟨rfl, rfl, rfl⟩
    · exact h.of_eq (descOf_setEvents he vs) ⟨rfl, rfl, rfl⟩

theorem not_held_step {w w' : World ο ε} {a : Action ο ε} (ha : ¬ w.RegistryAllowed desc a)
    (hs : w.step desc a = some w') : ¬ w'.Held := by
  cases a with
  | create o c =>
    obtain ⟨ho, hs⟩ := step_create.mp hs
    simp only [RegistryAllowed, Classical.not_imp, not_and_or, not_not] at ha
    obtain ⟨hp, hn, hd⟩ := ha
    have hlisted : o ∈ w'.diList ∨ o ∈ w'.ds18b20List := by
      obtain hd | hd := hd <;> simp [← hs, World.create, hd, hp, fAttach, mem_pushBack, hn]
    have hdead : w'.objects o = none := by
      obtain hd | hd := hd <;> simp [← hs, World.create, hd, hp, fAttach, ho]
    intro hheld
    have hlive := hheld o (.inr hlisted)
    simp [hdead] at hlive
  | destroy o =>
    obtain ⟨e, he, rfl⟩ := step_destroy.mp hs
    simp only [RegistryAllowed, not_not] at ha
    obtain ⟨hdesc, -, -, hds⟩ := destroy_lists w o e
    intro hheld
    have hlive := hheld o (.inr (.inr (hds ▸ ha)))
    rw [isSome_objects, hdesc, Function.update_self] at hlive
    cases hlive
  | _ => exact absurd trivial ha

variable (desc) in
/-- A creation that did not succeed has left the lists. -/
def FailedLeaves (w : World ο ε) (a : Action ο ε) : Prop :=
  ∀ o c w', a = .create o c → w.step desc a = some w' → w'.objects o = none → w.SameLists w'

theorem failedLeaves_of_allowed {w : World ο ε} {a : Action ο ε} (ha : w.RegistryAllowed desc a) :
    w.FailedLeaves desc a := by
  rintro o c w' rfl hs hdead
  obtain ⟨-, hs⟩ := step_create.mp hs
  obtain heq | ⟨d, e, v, hd, hv, ⟨hp, heq⟩ | ⟨-, heq⟩⟩ := w.create_cases desc o c
  · rw [← hs, heq]
    exact ⟨rfl, rfl, rfl⟩
  · rw [← hs, heq]
    exact sameLists_of_attached hd hv hp ha
  · rw [← hs, heq] at hdead
    simp [setObject] at hdead

/-- The lists hold live objects and failed creations leave them exactly when all steps keep them. -/
theorem held_iff_allowed {w t : World ο ε} (hw : w.Start) {acts : List (Action ο ε)}
    (ht : exec (step desc) acts w = some t) :
    ((∀ u, Visits (step desc) w acts u → u.Held) ∧
      ∀ u a, Takes (step desc) w acts u a → u.FailedLeaves desc a) ↔
      ∀ u a, Takes (step desc) w acts u a → u.RegistryAllowed desc a := by
  have hheld := visits_iff_takes (P := Held) hw.registryInv
    (fun _ _ _ h ha hs => registryInv_step h ha hs) (fun _ h => h.held)
    (fun _ _ _ _ ha hs => not_held_step ha hs) ht
  constructor
  · rintro ⟨h, -⟩
    exact hheld.mp h
  · intro h
    exact ⟨hheld.mpr h, fun u a hu => failedLeaves_of_allowed (h u a hu)⟩

section Runs

instance (w : World ο ε) : DecidablePred (w.RegistryAllowed desc)
  | .create _ _ => inferInstanceAs (Decidable (_ → _ → _ ∧ _))
  | .destroy o => inferInstanceAs (Decidable (o ∉ w.ds18b20List))
  | .eventCreate _ | .eventDestroy _ | .attach .. | .detach .. => .isTrue trivial

/-- A destroyed `DS18B20` stays in the list of its driver, as does a digital input whose creation
fails at the registry. -/
theorem dead_object_listed : empty.Start ∧
    (∃ u, exec (step someTypes) [.create 1 (created 0x01020001), .destroy 1] empty = some u ∧
      ¬ u.Held) ∧
    ∃ u, exec (step someTypes) [.create 1 ⟨0x05000001, 0, .attached, true⟩] empty = some u ∧
      ¬ u.Held ∧ ¬ empty.FailedLeaves someTypes (.create 1 ⟨0x05000001, 0, .attached, true⟩) := by
  refine ⟨start_empty, ⟨_, rfl, fun h => ?_⟩, _, rfl, fun h => ?_, fun h => ?_⟩
  · cases h 1 (.inr (.inr List.mem_cons_self))
  · cases h 1 (.inr (.inl List.mem_cons_self))
  · cases (h 1 _ _ rfl rfl rfl).2.1

theorem destroyed_input_unlisted :
    ∃ u, exec (step someTypes) [.create 1 (created 0x05000001), .create 2 (created 0x01020001),
      .destroy 1] empty = some u ∧ u.xObjList = [2] ∧ u.Held := by
  obtain ⟨u, hu, hx⟩ : ∃ u, exec (step someTypes) [.create 1 (created 0x05000001),
      .create 2 (created 0x01020001), .destroy 1] empty = some u ∧ u.xObjList = [2] :=
    ⟨_, rfl, by decide⟩
  exact ⟨u, hu, hx, ((held_iff_allowed start_empty hu).mpr (takes_of_along (by decide))).1 u
    ⟨_, List.prefix_rfl, hu⟩⟩

end Runs

end EdgeNode.Obj.World
