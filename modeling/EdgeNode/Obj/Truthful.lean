import EdgeNode.Obj.Nesting
import EdgeNode.Obj.RunOnce
import EdgeNode.Types

/-! What `FTE_OBJ_activate` returns, beside the state it leaves the object in. -/

namespace EdgeNode.Obj.Tree

open Forests

variable {ο : Type} [DecidableEq ο] {t : Tree ο} {s : Activity ο} {o : ο} {ok : ο → Bool}

/-- `FTE_OBJ_activate` with what it returns: not what the start or the stop returned. -/
def activated (t : Tree ο) (s : Activity ο) (pObj : ο) (enabled : Bool) (ok again : ο → Bool) :
    Ret × Activity ο := (retOk, t.activate s pObj enabled ok again)

/-- A start gets as far as the driver, which takes it. -/
def Starts (t : Tree ο) (s : Activity ο) (ok : ο → Bool) (o : ο) : Prop :=
  t.Startable s o ∧ ok o = true

theorem run_of_not_starts (h : ¬ t.Starts s ok o) :
    ∃ s', t.run ok s o = (s', false) ∧ s'.enabled = s.enabled := by
  unfold run
  split
  next => exact ⟨s, rfl, rfl⟩
  next hrun =>
    split
    next => exact ⟨s, rfl, rfl⟩
    next hpar =>
      refine ⟨_, if_neg fun hok => h ⟨⟨by simpa using hrun, fun hc => ?_⟩, hok⟩, rfl⟩
      cases hget : t.get (t.nDevID o) with
      | none => simp [hc, hget] at hpar
      | some p => exact ⟨p, rfl, by simpa [hc, hget] using hpar⟩

/-- The start itself tells the truth, as the stop does. -/
theorem start_snd : (t.start ok s o).2 = true ↔ t.Starts s ok o := by
  rw [start, Forest.walk_eq]
  by_cases hs : t.Starts s ok o
  · rw [run_of_startable hs.1 hs.2]
    exact iff_of_true rfl hs
  · obtain ⟨s', hrun, -⟩ := run_of_not_starts hs
    rw [hrun]
    exact iff_of_false Bool.false_ne_true hs

theorem start_of_not_starts (h : ¬ t.Starts s ok o) :
    ∃ s', t.start ok s o = (s', false) ∧ s'.enabled = s.enabled := by
  obtain ⟨s', hrun, he⟩ := run_of_not_starts h
  exact ⟨s', by rw [start, Forest.walk_eq, hrun], he⟩

theorem enabled_of_starts (h : t.Starts s ok o) : (t.start ok s o).1.enabled o = true := by
  rw [start, Forest.walk_eq, run_of_startable h.1 h.2]
  exact Forest.walkAll_inv (I := fun s : Activity ο => s.enabled o = true)
    (fun _ p hs => enabled_run ok hs p) (Function.update_self o true s.enabled) _

/-- After the call for `true` the object is enabled exactly when it was before or is started. -/
theorem enabled_activate_true (again : ο → Bool) :
    (t.activate s o true ok again).enabled o = true ↔ s.enabled o = true ∨ t.Starts s ok o := by
  rw [activate, if_pos rfl]
  by_cases hen : s.enabled o = true
  · rw [if_pos hen]
    exact iff_of_true hen (.inl hen)
  · rw [if_neg hen]
    by_cases hs : t.Starts s ok o
    · have hstart : t.start ok s o = ((t.start ok s o).1, true) := Prod.ext rfl (start_snd.mpr hs)
      rw [hstart]
      refine iff_of_true ?_ (.inr hs)
      exact Forest.walkAll_inv (I := fun s : Activity ο => s.enabled o = true)
        (fun _ p hs => enabled_run again hs p) (enabled_of_starts hs) (t.kids o)
    · obtain ⟨s', hstart, hkeep⟩ := start_of_not_starts hs
      rw [hstart, hkeep]
      exact iff_of_false hen (not_or.mpr ⟨hen, hs⟩)

/-- After the call for `false` it is disabled exactly when it was before or is stopped. -/
theorem enabled_activate_false (again : ο → Bool) :
    (t.activate s o false ok again).enabled o = false ↔ s.enabled o = false ∨ t.Stops ok o := by
  by_cases hen : s.enabled o = true
  · by_cases hs : t.Stops ok o
    · have hoff := activate_false_spec hen hs again o
      rw [Bool.eq_false_iff, Ne, hoff]
      exact iff_of_true (fun h => h.2 (.inl (.refl hs))) (.inr hs)
    · obtain ⟨s', hstop, hkeep⟩ := stop_of_not_stops hs s
      rw [activate, if_neg Bool.false_ne_true, if_pos hen, hstop, hkeep, hen]
      exact iff_of_false (by decide) (not_or.mpr ⟨by decide, hs⟩)
  · rw [activate, if_neg Bool.false_ne_true, if_neg hen]
    have hoff := Bool.eq_false_iff.mpr hen
    exact iff_of_true hoff (.inl hoff)

/-- The result of an activation is truthful exactly when the object is in the state asked for already,
or the start or the stop succeeds. -/
theorem activated_truthful_iff (t : Tree ο) (s : Activity ο) (o : ο) (enabled : Bool)
    (ok again : ο → Bool) :
    ((t.activated s o enabled ok again).1 = retOk →
      (t.activated s o enabled ok again).2.enabled o = enabled) ↔
    s.enabled o = enabled ∨ if enabled then t.Starts s ok o else t.Stops ok o := by
  have hret : (t.activated s o enabled ok again).1 = retOk := rfl
  refine (forall_prop_of_true hret).trans ?_
  cases enabled with
  | true => exact enabled_activate_true again
  | false => exact enabled_activate_false again

/-- A child is asked to run below a parent that is not enabled. -/
theorem activated_below_stopped :
    ¬ ((unitTree.activated idle 1 true (fun _ => true) fun _ => true).1 = retOk →
      (unitTree.activated idle 1 true (fun _ => true) fun _ => true).2.enabled 1 = true) := by
  decide

end EdgeNode.Obj.Tree
