import Mathlib.Algebra.Group.Nat.Defs
import Mathlib.Data.List.Induction
import Mathlib.Tactic.Common

/-! Runs of a system whose steps are labelled with actions, and what holds along the
runs whose steps meet a condition. -/

namespace Runs

variable {σ α : Type}

section Partial

variable (step : σ → α → Option σ)

def exec (acts : List α) (s : σ) : Option σ := acts.foldlM step s

/-- `u` is a state of the run of `acts` from `s`. -/
def Visits (s : σ) (acts : List α) (u : σ) : Prop := ∃ pre, pre <+: acts ∧ exec step pre s = some u

/-- The run of `acts` from `s` takes the step `a` in the state `u`. -/
def Takes (s : σ) (acts : List α) (u : σ) (a : α) : Prop :=
  ∃ pre, pre ++ [a] <+: acts ∧ exec step pre s = some u

@[simp] theorem exec_nil (s : σ) : exec step [] s = some s := rfl

theorem exec_cons (a : α) (as : List α) (s : σ) :
    exec step (a :: as) s = (step s a).bind (exec step as) := by
  simp only [exec, List.foldlM_cons]
  rfl

theorem exec_append (as bs : List α) (s : σ) :
    exec step (as ++ bs) s = (exec step as s).bind (exec step bs) := by
  simp only [exec, List.foldlM_append]
  rfl

theorem exec_concat (as : List α) (a : α) (s : σ) :
    exec step (as ++ [a]) s = (exec step as s).bind fun u => step u a := by
  rw [exec_append]
  congr
  funext u
  simp [exec]

theorem exec_isSome_of_prefix {pre acts : List α} {s t : σ} (h : exec step acts s = some t)
    (hp : pre <+: acts) : ∃ u, exec step pre s = some u := by
  obtain ⟨rest, rfl⟩ := hp
  rw [exec_append] at h
  obtain ⟨u, hu, -⟩ := Option.bind_eq_some_iff.mp h
  exact ⟨u, hu⟩

theorem exec_total (h : ∀ s a, ∃ t, step s a = some t) (acts : List α) (s : σ) :
    ∃ t, exec step acts s = some t := by
  induction acts generalizing s with
  | nil => exact ⟨s, rfl⟩
  | cons a as ih =>
    obtain ⟨t, ht⟩ := h s a
    rw [exec_cons, ht]
    exact ih t

theorem Takes.mem {s u : σ} {a : α} {acts : List α} (h : Takes step s acts u a) : a ∈ acts := by
  obtain ⟨pre, hp, -⟩ := h
  exact hp.subset (by simp)

/-- `G` holds of every step that the run of `acts` from `s` takes. -/
def Along (G : σ → α → Prop) : List α → σ → Prop
  | [], _ => True
  | a :: as, s => G s a ∧ ∀ t, step s a = some t → Along G as t

instance Along.decide (G : σ → α → Prop) [∀ s, DecidablePred (G s)] :
    (acts : List α) → DecidablePred (Along step G acts)
  | [], _ => .isTrue trivial
  | a :: as, s =>
    letI := Along.decide G as
    inferInstanceAs (Decidable (G s a ∧ ∀ t ∈ step s a, Along step G as t))

variable {step} {Inv P : σ → Prop} {G : σ → α → Prop}

theorem takes_of_along {s : σ} {acts : List α} (h : Along step G acts s) :
    ∀ u a, Takes step s acts u a → G u a := by
  induction acts generalizing s with
  | nil =>
    rintro u a ⟨pre, hp, -⟩
    simp at hp
  | cons b bs ih =>
    rintro u a ⟨pre, hp, hu⟩
    cases pre with
    | nil =>
      cases hu
      obtain rfl : a = b := by simpa using hp
      exact h.1
    | cons c pre =>
      rw [List.cons_append, List.cons_prefix_cons] at hp
      obtain ⟨rfl, hp⟩ := hp
      obtain ⟨w, hw, hu⟩ := Option.bind_eq_some_iff.mp hu
      exact ih (h.2 w hw) u a ⟨pre, hp, hu⟩

/-- Along a run whose steps are all allowed an invariant of the allowed steps holds. -/
theorem inv_of_takes {s u : σ} {acts : List α} (hs : Inv s)
    (hstep : ∀ u a v, Inv u → G u a → step u a = some v → Inv v)
    (h : ∀ u a, Takes step s acts u a → G u a) (hv : Visits step s acts u) : Inv u := by
  obtain ⟨pre, hp, hu⟩ := hv
  induction pre using List.reverseRecOn generalizing u with
  | nil =>
    cases hu
    exact hs
  | append_singleton pre a ih =>
    rw [exec_concat] at hu
    obtain ⟨w, hw, hwu⟩ := Option.bind_eq_some_iff.mp hu
    exact hstep w a u (ih ((List.prefix_append pre [a]).trans hp) hw)
      (h w a ⟨pre, hp, hw⟩) hwu

/-- Where the invariant gives the property and every step that is not allowed breaks it, the property
holds along a run exactly when all its steps are allowed. -/
theorem visits_iff_takes {s t : σ} {acts : List α} (hs : Inv s)
    (hstep : ∀ u a v, Inv u → G u a → step u a = some v → Inv v)
    (hP : ∀ u, Inv u → P u) (hbreak : ∀ u a v, Inv u → ¬ G u a → step u a = some v → ¬ P v)
    (ht : exec step acts s = some t) :
    (∀ u, Visits step s acts u → P u) ↔ ∀ u a, Takes step s acts u a → G u a := by
  constructor
  · intro h
    have hinv : ∀ pre, pre <+: acts → ∀ u, exec step pre s = some u → Inv u := by
      intro pre
      induction pre using List.reverseRecOn with
      | nil =>
        intro _ u hu
        cases hu
        exact hs
      | append_singleton pre a ih =>
        intro hp u hu
        have hw := hu
        rw [exec_concat] at hw
        obtain ⟨w, hw, hwu⟩ := Option.bind_eq_some_iff.mp hw
        have hi := ih ((List.prefix_append pre [a]).trans hp) w hw
        by_cases hg : G w a
        · exact hstep w a u hi hg hwu
        · exact absurd (h u ⟨pre ++ [a], hp, hu⟩) (hbreak w a u hi hg hwu)
    rintro u a ⟨pre, hp, hu⟩
    obtain ⟨v, hv⟩ := exec_isSome_of_prefix step ht hp
    have huv := hv
    rw [exec_concat, hu] at huv
    by_contra hg
    exact hbreak u a v (hinv pre ((List.prefix_append pre [a]).trans hp) u hu) hg huv
      (h v ⟨pre ++ [a], hp, hv⟩)
  · exact fun h u hv => hP u (inv_of_takes hs hstep h hv)

/-- Where a step keeps the property exactly if it is allowed, the property is its own invariant. -/
theorem visits_iff_takes_of_step {s t : σ} {acts : List α} (hs : P s)
    (hstep : ∀ u a v, P u → step u a = some v → (P v ↔ G u a)) (ht : exec step acts s = some t) :
    (∀ u, Visits step s acts u → P u) ↔ ∀ u a, Takes step s acts u a → G u a := by
  apply visits_iff_takes hs ?_ (fun _ h => h) ?_ ht
  · intro u a v h hg hv
    exact (hstep u a v h hv).mpr hg
  · intro u a v h hg hv
    exact mt (hstep u a v h hv).mp hg

end Partial

section Guarded

variable (init : σ → Prop) (R : σ → α → σ → Prop) (G : σ → α → Prop)

/-- The states reached by steps that are all allowed. -/
inductive Reach : σ → Prop
  | start {s} (h : init s) : Reach s
  | step {s a t} (h : Reach s) (hg : G s a) (hr : R s a t) : Reach t

variable {init R G} {Inv : σ → Prop}

theorem Reach.inv {s : σ} (h : Reach init R G s) (hinit : ∀ s, init s → Inv s)
    (hstep : ∀ s a t, Inv s → G s a → R s a t → Inv t) : Inv s := by
  induction h with
  | start h => exact hinit _ h
  | step _ hg hr ih => exact hstep _ _ _ ih hg hr

end Guarded

end Runs
