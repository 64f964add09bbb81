import Mathlib.Data.List.Nodup

/-! Lists that hold the elements of a set, each once. -/

namespace ExactLists

variable {α : Type} {l : List α} {S T : α → Prop} {x : α}

def Exact (l : List α) (S : α → Prop) : Prop := l.Nodup ∧ ∀ x, x ∈ l ↔ S x

theorem exact_nil_iff : Exact [] S ↔ ∀ x, ¬ S x := by
  simp [Exact]

theorem Exact.eq_nil_iff (h : Exact l S) : l = [] ↔ ∀ x, ¬ S x := by
  simp [List.eq_nil_iff_forall_not_mem, h.2]

theorem Exact.congr_iff (h : Exact l S) : Exact l T ↔ ∀ x, S x ↔ T x := by
  constructor
  · intro h' x
    rw [← h.2, h'.2]
  · exact fun hST => ⟨h.1, fun x => (h.2 x).trans (hST x)⟩

theorem Exact.concat_iff (h : Exact l S) : Exact (l ++ [x]) T ↔ ¬ S x ∧ ∀ y, T y ↔ S y ∨ y = x := by
  simp only [Exact, List.nodup_append, List.mem_append, List.mem_singleton, h.2, h.1,
    List.nodup_singleton, true_and, forall_eq, ne_eq]
  constructor
  · rintro ⟨hx, hT⟩
    exact ⟨fun hS => hx x hS rfl, fun y => (hT y).symm⟩
  · rintro ⟨hx, hT⟩
    exact ⟨fun y hy hyx => hx (hyx ▸ hy), fun y => (hT y).symm⟩

theorem Exact.erase_iff [DecidableEq α] (h : Exact l S) :
    Exact (l.erase x) T ↔ ∀ y, T y ↔ y ≠ x ∧ S y := by
  simp only [Exact, h.1.erase x, true_and, h.1.mem_erase_iff, h.2]
  exact forall_congr' fun y => Iff.comm

end ExactLists
