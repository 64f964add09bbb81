import EdgeNode.Obj.Activation

/-! How often an activation calls the driver of each object of a tree. -/

namespace EdgeNode.Obj.Tree

open Forests

variable {ο : Type} [DecidableEq ο] {t : Tree ο}

def sure (_ : ο) : Bool := true

/-- An object is started where it has an `fRun` and its parent, if it is a child, is enabled. -/
def Startable (t : Tree ο) (s : Activity ο) (o : ο) : Prop :=
  t.fRun o = true ∧ (t.isChild o = true → ∃ p, t.get (t.nDevID o) = some p ∧ s.enabled p = true)

theorem run_of_startable {s : Activity ο} {o : ο} {ok : ο → Bool} (h : t.Startable s o)
    (hok : ok o = true) :
    t.run ok s o = (⟨Function.update s.enabled o true, s.calls ++ [.fRun o]⟩, true) := by
  have hpar : (t.isChild o && !(t.get (t.nDevID o)).any s.enabled) = false := by
    cases hc : t.isChild o with
    | false => rfl
    | true =>
      obtain ⟨p, hp, hpe⟩ := h.2 hc
      simp [hp, hpe]
  simp [run, h.1, hpar, hok]

omit [DecidableEq ο] in
theorem startable_kid {s : Activity ο} {o c : ο} (hc : c ∈ t.kids o) (hrun : t.fRun c = true)
    (ho : s.enabled o = true) : t.Startable s c := by
  have hp := (t.mem_kids c o).mp hc
  refine ⟨hrun, fun hch => ⟨o, ?_, ho⟩⟩
  simpa [Objects.parent, hch] using hp

theorem enabled_run (ok : ο → Bool) {s : Activity ο} {x : ο} (hx : s.enabled x = true) (o : ο) :
    (t.run ok s o).1.enabled x = true := by
  unfold run
  split
  · exact hx
  split
  · exact hx
  split
  · by_cases h : x = o <;> simp [h, hx]
  · exact hx

theorem enabled_start (ok : ο → Bool) {s : Activity ο} {x : ο} (hx : s.enabled x = true) (o : ο) :
    (t.start ok s o).1.enabled x = true :=
  Forest.walk_inv (I := fun s : Activity ο => s.enabled x = true) (fun _ o hs => enabled_run ok hs o) hx o

theorem startAll_calls {o : ο} {os : List ο} (h : ∀ c ∈ os, ∀ s, s.enabled o = true →
      (t.start sure s c).1.calls = s.calls ++ (t.forest.preorder c).map .fRun)
    {s : Activity ο} (ho : s.enabled o = true) :
    (t.forest.walkAll (t.run sure) s os).calls =
      s.calls ++ (os.flatMap t.forest.preorder).map .fRun := by
  induction os generalizing s with
  | nil => simp [Forest.walkAll]
  | cons c os ih =>
    have hc := h c List.mem_cons_self s ho
    have hrest := ih (fun d hd => h d (List.mem_cons_of_mem _ hd)) (enabled_start (t := t) sure ho c)
    rw [hc, List.append_assoc, ← List.map_append, ← List.flatMap_cons] at hrest
    exact hrest

theorem start_calls {o : ο} (hrun : ∀ x ∈ t.forest.preorder o, t.fRun x = true) {s : Activity ο}
    (h : t.Startable s o) : (t.start sure s o).1.calls = s.calls ++ (t.forest.preorder o).map .fRun ∧
      (t.start sure s o).2 = true ∧ (t.start sure s o).1.enabled o = true := by
  induction o using t.forest.induct generalizing s with
  | h o ih =>
    have hkid : ∀ c ∈ t.kids o, ∀ x ∈ t.forest.preorder c, t.fRun x = true := by
      intro c hc x hx
      refine hrun x ?_
      rw [t.forest.preorder_eq]
      exact List.mem_cons_of_mem _ (List.mem_flatMap.mpr ⟨c, hc, hx⟩)
    have hen : (Function.update s.enabled o true) o = true := by simp
    rw [start, Forest.walk_eq, run_of_startable h rfl]
    refine ⟨?_, rfl, ?_⟩
    · refine (startAll_calls (o := o) (fun c hc s ho => ?_) hen).trans ?_
      · refine (ih c hc (hkid c hc) (startable_kid hc (hkid c hc c ?_) ho)).1
        exact t.forest.mem_preorder.mpr (.inl rfl)
      · rw [t.forest.preorder_eq o, List.map_cons, List.append_assoc]
        rfl
    · exact Forest.walkAll_inv (I := fun s : Activity ο => s.enabled o = true)
        (fun _ c hs => enabled_run sure hs c) hen (t.kids o)

omit [DecidableEq ο] in
theorem preorder_kids (o : ο) :
    t.forest.preorder o = o :: (t.kids o).flatMap t.forest.preorder := t.forest.preorder_eq o

/-- An activation that finds the object disabled runs its tree, and that of each child again. -/
theorem activate_calls {r : ο} (hr : t.isChild r = false)
    (hrun : ∀ x ∈ t.forest.preorder r, t.fRun x = true) :
    (t.activate idle r true sure sure).enabled r = true ∧
      (t.activate idle r true sure sure).calls =
        (t.forest.preorder r ++ (t.kids r).flatMap t.forest.preorder).map .fRun := by
  have hself : r ∈ t.forest.preorder r := t.forest.mem_preorder.mpr (.inl rfl)
  have hst : t.Startable idle r := ⟨hrun r hself, by simp [hr]⟩
  obtain ⟨hcalls, hok, hen⟩ := start_calls hrun hst
  have hpair : t.start sure idle r = ((t.start sure idle r).1, true) := Prod.ext rfl hok
  have hact : t.activate idle r true sure sure =
      t.forest.walkAll (t.run sure) (t.start sure idle r).1 (t.kids r) := by
    simp only [activate, if_true, idle, Bool.false_eq_true, if_false]
    rw [← idle, hpair]
    rfl
  rw [hact]
  refine ⟨Forest.walkAll_inv (I := fun s : Activity ο => s.enabled r = true)
    (fun _ c hs => enabled_run sure hs c) hen (t.kids r), ?_⟩
  rw [startAll_calls (o := r) (fun c hc s ho => ?_) hen, hcalls]
  · simp [idle]
  · have hkid : ∀ x ∈ t.forest.preorder c, t.fRun x = true := by
      intro x hx
      refine hrun x ?_
      rw [preorder_kids]
      exact List.mem_cons_of_mem _ (List.mem_flatMap.mpr ⟨c, hc, hx⟩)
    have hc' := startable_kid hc (hkid c (t.forest.mem_preorder.mpr (.inl rfl))) ho
    exact (start_calls hkid hc').1

/-- The root is run once and each of its descendants twice. -/
theorem count_run {r : ο} (hr : t.isChild r = false)
    (hrun : ∀ x ∈ t.forest.preorder r, t.fRun x = true) {x : ο} (hx : x ∈ t.forest.preorder r) :
    (t.activate idle r true sure sure).calls.count (.fRun x) = if x = r then 1 else 2 := by
  have hinj : Function.Injective (Call.fRun : ο → Call ο) := fun _ _ h => Call.fRun.inj h
  have hone := List.count_eq_one_of_mem (t.forest.nodup_preorder r) hx
  rw [(activate_calls hr hrun).2, List.count_map_of_injective _ _ hinj, List.count_append, hone]
  rw [preorder_kids, List.count_cons] at hone
  by_cases hxr : x = r
  · subst hxr
    simp only [BEq.rfl, if_true] at hone ⊢
    omega
  · have hne : (r == x) = false := by simpa using Ne.symm hxr
    simp only [hne, Bool.false_eq_true, if_false, hxr] at hone ⊢
    omega

theorem deactivate_calls {s : Activity ο} {r : ο} (hk : t.kids r = []) (hen : s.enabled r = true)
    (ok again : ο → Bool) :
    (t.activate s r false ok again).calls = s.calls ++ if t.fStop r then [.fStop r] else [] := by
  have hkf : t.forest.kids r = [] := hk
  have hst : (t.stop ok s r).1.calls = s.calls ++ if t.fStop r then [.fStop r] else [] := by
    rw [stop, Forest.walk_eq, hkf, halt]
    cases hf : t.fStop r <;> cases hok : ok r <;> simp [Forest.walkAll]
  rw [← hst, activate]
  simp only [Bool.false_eq_true, if_false, hen, if_true, hk]
  split
  · rename_i he
    rw [he]
    rfl
  · rename_i he
    rw [he]

/-- Each object of the tree is run once and, on the deactivation that follows, stopped once exactly
where the root has no children and can be stopped. -/
theorem run_once_iff (t : Tree ο) {r : ο} (hr : t.isChild r = false)
    (hrun : ∀ x, x = r ∨ t.forest.Below r x → t.fRun x = true) (ok again : ο → Bool) :
    (∀ x, x = r ∨ t.forest.Below r x →
      (t.activate idle r true sure sure).calls.count (.fRun x) = 1 ∧
      (t.activate (t.activate idle r true sure sure) r false ok again).calls.count (.fStop x) = 1) ↔
      t.kids r = [] ∧ t.fStop r = true := by
  simp only [← t.forest.mem_preorder] at hrun ⊢
  obtain ⟨hen, hcalls⟩ := activate_calls hr hrun
  have hself : r ∈ t.forest.preorder r := t.forest.mem_preorder.mpr (.inl rfl)
  have hleaf : t.kids r = [] →
      (t.activate (t.activate idle r true sure sure) r false ok again).calls =
        [.fRun r] ++ if t.fStop r then [.fStop r] else [] := by
    intro hk
    rw [deactivate_calls hk hen, hcalls, preorder_kids, hk]
    rfl
  constructor
  · intro h
    have hk : t.kids r = [] := by
      refine List.eq_nil_iff_forall_not_mem.mpr fun c hc => ?_
      have hb : t.forest.Below r c := Forest.below_of_kid hc
      have hm := t.forest.mem_preorder.mpr (.inr hb)
      have hone := (h c hm).1
      rw [count_run hr hrun hm, if_neg hb.ne] at hone
      omega
    refine ⟨hk, ?_⟩
    have hone := (h r hself).2
    rw [hleaf hk] at hone
    by_contra hf
    simp [hf] at hone
  · rintro ⟨hk, hf⟩ x hx
    rw [preorder_kids, hk] at hx
    obtain rfl : x = r := by simpa using hx
    rw [count_run hr hrun hself, if_pos rfl, hleaf hk, if_pos hf]
    exact ⟨rfl, by simp⟩

section Runs

/-- The interface object of an activated unit is run twice, and stopped twice. -/
theorem child_run_twice : unitTree.isChild 0 = false ∧ (∀ o, unitTree.fRun o = true) ∧
    unitTree.forest.Below 0 1 ∧
    (unitTree.activate idle 0 true sure sure).calls.count (.fRun 1) = 2 ∧
    (unitTree.activate (unitTree.activate idle 0 true sure sure) 0 false sure sure).calls.count
      (.fStop 1) = 2 :=
  ⟨by decide, by decide, ⟨1, by decide, .refl trivial⟩, by decide, by decide⟩

def lone : Tree Unit where
  nID _ := 0x05000001
  nDevID _ := 0
  get nID := if nID = 0x05000001 then some () else none
  fRun _ := true
  fStop _ := true
  fGetChild _ := []
  mem_kids := by decide
  nodup := by decide
  height _ := 0
  height_lt := by decide

theorem lone_run_once : lone.kids () = [] ∧ ∀ x, x = () ∨ lone.forest.Below () x →
    (lone.activate idle () true sure sure).calls.count (.fRun x) = 1 ∧
    (lone.activate (lone.activate idle () true sure sure) () false sure sure).calls.count
      (.fStop x) = 1 :=
  ⟨rfl, (run_once_iff lone (r := ()) (by decide) (fun _ _ => rfl) sure sure).mpr (by decide)⟩

end Runs

end EdgeNode.Obj.Tree
