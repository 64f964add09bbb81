import Mathlib.Data.List.Basic
import Mathlib.Tactic.Common

/-! Machines that answer each input, and when one of them refines another. -/

namespace Refinement

variable {σ τ α β : Type}

/-- The answers of a machine to the inputs `as` from the state `s`. -/
def answers (step : σ → α → β × σ) : List α → σ → List β
  | [], _ => []
  | a :: as, s => (step s a).1 :: answers step as (step s a).2

/-- The state behind the inputs `as`. -/
def behind (step : σ → α → β × σ) (as : List α) (s : σ) : σ :=
  as.foldl (fun s a => (step s a).2) s

@[simp] theorem behind_nil (step : σ → α → β × σ) (s : σ) : behind step [] s = s := rfl

@[simp] theorem behind_cons (step : σ → α → β × σ) (a : α) (as : List α) (s : σ) :
    behind step (a :: as) s = behind step as (step s a).2 := rfl

/-- Related states answer alike and stay related. -/
structure Simulates (step : σ → α → β × σ) (spec : τ → α → β × τ) (R : σ → τ → Prop) : Prop where
  answer : ∀ s t a, R s t → (step s a).1 = (spec t a).1
  next : ∀ s t a, R s t → R (step s a).2 (spec t a).2

namespace Simulates

variable {step : σ → α → β × σ} {spec : τ → α → β × τ} {R : σ → τ → Prop} {s : σ} {t : τ}

theorem behind (h : Simulates step spec R) (hR : R s t) (as : List α) :
    R (behind step as s) (behind spec as t) := by
  induction as generalizing s t with
  | nil => exact hR
  | cons a as ih => exact ih (h.next s t a hR)

theorem answers (h : Simulates step spec R) (hR : R s t) (as : List α) :
    answers step as s = answers spec as t := by
  induction as generalizing s t with
  | nil => rfl
  | cons a as ih =>
    simp only [Refinement.answers]
    rw [h.answer s t a hR, ih (h.next s t a hR)]

end Simulates

end Refinement
