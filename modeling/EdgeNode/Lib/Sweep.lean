import Mathlib.Tactic.Common

/-! Loops over indices whose turns change only what belongs to their index. -/

namespace Sweep

variable {σ ι β : Type} {step : σ → ι → σ} {view : σ → ι → β} {act : ι → β → β}

/-- What belongs to an index that the loop does not visit stays. -/
theorem view_of_not_mem (hother : ∀ s i j, i ≠ j → view (step s i) j = view s j) {l : List ι} {j : ι}
    (hj : j ∉ l) (s : σ) : view (l.foldl step s) j = view s j := by
  induction l generalizing s with
  | nil => rfl
  | cons i l ih =>
    have hne : i ≠ j := fun h => hj (h ▸ List.mem_cons_self)
    rw [List.foldl_cons, ih fun h => hj (List.mem_cons_of_mem i h)]
    exact hother s i j hne

/-- What belongs to an index that it visits once is changed once. -/
theorem view_of_mem (hown : ∀ s i, view (step s i) i = act i (view s i))
    (hother : ∀ s i j, i ≠ j → view (step s i) j = view s j) {l : List ι} (hl : l.Nodup) {j : ι}
    (hj : j ∈ l) (s : σ) : view (l.foldl step s) j = act j (view s j) := by
  induction l generalizing s with
  | nil => cases hj
  | cons i l ih =>
    obtain ⟨hi, hl⟩ := List.nodup_cons.mp hl
    rw [List.foldl_cons]
    by_cases hij : i = j
    · subst hij
      rw [view_of_not_mem hother hi, hown]
    · have hmem : j ∈ l := (List.mem_cons.mp hj).resolve_left fun h => hij h.symm
      rw [ih hl hmem, hother s i j hij]

end Sweep
