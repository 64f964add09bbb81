import EdgeNode.Obj.Activation

/-! When an enabled child has an enabled parent. -/

namespace EdgeNode.Obj.Tree

open Forests Runs

variable {ο : Type} (t : Tree ο)

def Nested (s : Activity ο) : Prop :=
  ∀ c, t.isChild c = true → s.enabled c = true →
    ∃ p, t.get (t.nDevID c) = some p ∧ s.enabled p = true

variable {t}

theorem parent_eq_some_iff {c p : ο} :
    t.parent c = some p ↔ t.isChild c = true ∧ t.get (t.nDevID c) = some p := by
  simp [Objects.parent]

variable [DecidableEq ο]

theorem nested_run (ok : ο → Bool) {s : Activity ο} (h : t.Nested s) (o : ο) :
    t.Nested (t.run ok s o).1 := by
  unfold run
  split
  · exact h
  split
  · exact h
  rename_i hfree
  split
  · intro c hc hen
    -- The parent of the started object is enabled already, that of another stays so.
    have hpar : ∃ p, t.get (t.nDevID c) = some p ∧ s.enabled p = true := by
      by_cases hco : c = o
      · subst hco
        simpa [hc, Option.any_eq_true] using hfree
      · exact h c hc (by simpa [hco] using hen)
    obtain ⟨p, hp, hpe⟩ := hpar
    refine ⟨p, hp, ?_⟩
    by_cases hpo : p = o
    · simp [hpo]
    · simpa [hpo] using hpe
  · exact h

theorem nested_start (ok : ο → Bool) {s : Activity ο} (h : t.Nested s) (o : ο) :
    t.Nested (t.start ok s o).1 :=
  Forest.walk_inv (I := t.Nested) (fun _ o hs => nested_run ok hs o) h o

/-- The objects that a stop of the first takes on. -/
def Stops (t : Tree ο) (ok : ο → Bool) (o : ο) : Prop := t.fStop o = true ∧ ok o = true

theorem halt_of_stops {ok : ο → Bool} {o : ο} (h : t.Stops ok o) (s : Activity ο) :
    t.halt ok s o = (⟨Function.update s.enabled o false, s.calls ++ [.fStop o]⟩, true) := by
  simp [halt, h.1, h.2]

theorem halt_of_not_stops {ok : ο → Bool} {o : ο} (h : ¬ t.Stops ok o) (s : Activity ο) :
    ∃ s', t.halt ok s o = (s', false) ∧ s'.enabled = s.enabled := by
  unfold halt
  split
  · exact ⟨s, rfl, rfl⟩
  · rename_i hf
    have hok : ¬ ok o = true := fun hok => h ⟨by simpa using hf, hok⟩
    exact ⟨_, if_neg hok, rfl⟩

omit [DecidableEq ο] in
theorem enabled_walkAll {enter : Activity ο → ο → Activity ο × Bool} {R : ο → ο → Prop} {x : ο}
    {os : List ο} (h : ∀ o ∈ os, ∀ s, (t.forest.walk enter s o).1.enabled x = true ↔
      s.enabled x = true ∧ ¬ R o x) (s : Activity ο) :
    (t.forest.walkAll enter s os).enabled x = true ↔ s.enabled x = true ∧ ∀ o ∈ os, ¬ R o x := by
  induction os generalizing s with
  | nil => simp [Forest.walkAll]
  | cons o os ih =>
    rw [Forest.walkAll_cons, ih (fun p hp => h p (List.mem_cons_of_mem _ hp)),
      h o List.mem_cons_self, List.forall_mem_cons, and_assoc]

theorem stop_spec (ok : ο → Bool) (s : Activity ο) (o x : ο) :
    (t.stop ok s o).1.enabled x = true ↔
      s.enabled x = true ∧ ¬ t.forest.Down (t.Stops ok) o x := by
  induction o using t.forest.induct generalizing s with
  | h o ih =>
    rw [stop, Forest.walk_eq, Forest.down_iff]
    by_cases hs : t.Stops ok o
    · rw [halt_of_stops hs]
      simp only [hs, true_and]
      rw [enabled_walkAll fun c hc s => ih c hc s]
      by_cases hx : x = o
      · simp [hx]
      · simp [hx]
    · obtain ⟨s', hh, he⟩ := halt_of_not_stops hs s
      rw [hh]
      simp [hs, he]

theorem stop_snd (ok : ο → Bool) (s : Activity ο) (o : ο) :
    (t.stop ok s o).2 = true ↔ t.Stops ok o := by
  rw [stop, Forest.walk_eq]
  by_cases hs : t.Stops ok o
  · rw [halt_of_stops hs]
    simp [hs]
  · obtain ⟨s', hh, -⟩ := halt_of_not_stops hs s
    rw [hh]
    simp [hs]

theorem stop_of_not_stops {ok : ο → Bool} {o : ο} (h : ¬ t.Stops ok o) (s : Activity ο) :
    ∃ s', t.stop ok s o = (s', false) ∧ s'.enabled = s.enabled := by
  obtain ⟨s', hh, he⟩ := halt_of_not_stops h s
  exact ⟨s', by rw [stop, Forest.walk_eq, hh], he⟩

theorem activate_false_spec {s : Activity ο} {o : ο} (ho : s.enabled o = true) {ok : ο → Bool}
    (hs : t.Stops ok o) (again : ο → Bool) (x : ο) :
    (t.activate s o false ok again).enabled x = true ↔ s.enabled x = true ∧
      ¬ (t.forest.Down (t.Stops ok) o x ∨ ∃ c ∈ t.kids o, t.forest.Down (t.Stops again) c x) := by
  have hst : t.stop ok s o = ((t.stop ok s o).1, true) :=
    Prod.ext rfl ((stop_snd ok s o).mpr hs)
  have hact : t.activate s o false ok again =
      t.forest.walkAll (t.halt again) (t.stop ok s o).1 (t.kids o) := by
    simp only [activate, Bool.false_eq_true, if_false, ho, if_true]
    rw [hst]
    rfl
  rw [hact, enabled_walkAll fun c _ s => stop_spec again s c x, stop_spec, and_assoc]
  simp [not_or]

omit [DecidableEq ο] in
/-- Where an object and some of what is below it are disabled, and nothing else, enabled children
keep an enabled parent exactly when everything enabled below the object is among them. -/
theorem nested_iff_of_cleared {s s' : Activity ο} {o : ο} {C : ο → Prop} (h : t.Nested s)
    (hs : ∀ x, s'.enabled x = true ↔ s.enabled x = true ∧ ¬ C x) (ho : C o)
    (hC : ∀ x, C x → x = o ∨ t.forest.Below o x) :
    t.Nested s' ↔ ∀ x, t.forest.Below o x → s.enabled x = true → C x := by
  have hkid : ∀ c p, c ∈ t.forest.kids p ↔ t.isChild c = true ∧ t.get (t.nDevID c) = some p :=
    fun c p => (t.mem_kids c p).trans parent_eq_some_iff
  constructor
  · intro hn x hx hen
    have hoff : s'.enabled x = false := by
      refine hx.induct (P := fun x => s'.enabled x = false) (fun c hc => ?_) fun y hy c hc => ?_
      all_goals
        by_contra hon
        obtain ⟨hch, hget⟩ := (hkid _ _).mp hc
        obtain ⟨p, hp, hpe⟩ := hn c hch (by simpa using hon)
        obtain rfl := Option.some.inj (hget.symm.trans hp)
      · exact ((hs o).mp hpe).2 ho
      · simp [hy] at hpe
    by_contra hcx
    simp [(hs x).mpr ⟨hen, hcx⟩] at hoff
  · intro hall c hch hen
    obtain ⟨hce, hcn⟩ := (hs c).mp hen
    obtain ⟨p, hp, hpe⟩ := h c hch hce
    refine ⟨p, hp, (hs p).mpr ⟨hpe, fun hCp => hcn (hall c ?_ hce)⟩⟩
    have hcp := (hkid c p).mpr ⟨hch, hp⟩
    obtain rfl | hb := hC p hCp
    · exact Forest.below_of_kid hcp
    · exact hb.kid hcp

/-- The calls that keep enabled children below enabled parents: a stop that takes on an object takes
on everything that is enabled below it, in one of the two passes of `FTE_OBJ_activate`. -/
def NestAllowed (t : Tree ο) (s : Activity ο) : Activation ο → Prop
  | .stop o ok => t.Stops ok o → ∀ x, t.forest.Below o x → s.enabled x = true →
      t.forest.Down (t.Stops ok) o x
  | .activate o false ok again => s.enabled o = true → t.Stops ok o →
      ∀ x, t.forest.Below o x → s.enabled x = true →
        t.forest.Down (t.Stops ok) o x ∨ ∃ c ∈ t.kids o, t.forest.Down (t.Stops again) c x
  | _ => True

theorem nested_activate_true {s : Activity ο} (h : t.Nested s) (o : ο) (ok again : ο → Bool) :
    t.Nested (t.activate s o true ok again) := by
  have hst := nested_start ok h o
  simp only [activate, if_true]
  split
  · exact h
  split
  · rename_i he
    rw [he] at hst
    exact Forest.walkAll_inv (I := t.Nested) (fun _ o hs => nested_run again hs o) hst _
  · rename_i he
    rwa [he] at hst

theorem nested_step_iff {s s' : Activity ο} (h : t.Nested s) {a : Activation ο}
    (hs : t.step s a = some s') : t.Nested s' ↔ t.NestAllowed s a := by
  cases a with
  | start o ok =>
    cases hs
    exact iff_of_true (nested_start ok h o) trivial
  | stop o ok =>
    cases hs
    by_cases ho : t.Stops ok o
    · rw [nested_iff_of_cleared h (stop_spec ok s o) (.refl ho) fun x => Forest.Down.eq_or_below]
      simp [NestAllowed, ho]
    · obtain ⟨s', hst, hkeep⟩ := stop_of_not_stops ho s
      refine iff_of_true ?_ fun hst => absurd hst ho
      simpa only [Nested, hst, hkeep] using h
  | activate o enabled ok again =>
    cases hs
    cases enabled with
    | true => exact iff_of_true (nested_activate_true h o ok again) trivial
    | false =>
      by_cases hen : s.enabled o = true
      · by_cases ho : t.Stops ok o
        · rw [nested_iff_of_cleared h (activate_false_spec hen ho again) (.inl (.refl ho))]
          · simp [NestAllowed, ho, hen]
          · rintro x (hx | ⟨c, hc, hx⟩)
            · exact hx.eq_or_below
            · exact .inr ⟨c, hc, hx.mono fun _ _ => trivial⟩
        · obtain ⟨s', hst, hkeep⟩ := stop_of_not_stops ho s
          have hact : t.activate s o false ok again = s' := by simp [activate, hen, hst]
          refine iff_of_true ?_ fun _ hst => absurd hst ho
          simpa only [Nested, hact, hkeep] using h
      · have hact : t.activate s o false ok again = s := by simp [activate, hen]
        refine iff_of_true ?_ fun he => absurd he hen
        rwa [hact]

/-- Enabled children have enabled parents in every state of a run exactly when they have in the first
and all calls keep it. -/
theorem nested_iff_allowed (t : Tree ο) (s : Activity ο) (acts : List (Activation ο)) :
    (∀ u, Visits t.step s acts u → t.Nested u) ↔
      t.Nested s ∧ ∀ u a, Takes t.step s acts u a → t.NestAllowed u a := by
  have htotal : ∀ (s : Activity ο) (a : Activation ο), ∃ u, t.step s a = some u :=
    fun _ a => by cases a <;> exact ⟨_, rfl⟩
  obtain ⟨u, hu⟩ := exec_total t.step htotal acts s
  have hiff := fun hs : t.Nested s =>
    visits_iff_takes_of_step (P := t.Nested) hs (fun _ _ _ h hst => nested_step_iff h hst) hu
  constructor
  · intro h
    have hs := h s ⟨[], List.nil_prefix, rfl⟩
    exact ⟨hs, (hiff hs).mp h⟩
  · rintro ⟨hs, ha⟩
    exact (hiff hs).mpr ha

section Runs

/-- The unit is stopped and the stop of its interface object fails. -/
theorem child_left_enabled : unitTree.Nested idle ∧
    ∃ u, exec unitTree.step [.start 0 fun _ => true, .stop 0 fun o => o = 0] idle = some u ∧
      ¬ unitTree.Nested u := by
  refine ⟨?_, _, rfl, ?_⟩ <;> (unfold Nested; decide)

end Runs

end EdgeNode.Obj.Tree
