import Mathlib.Data.Finset.Filter
import Mathlib.Data.Finset.Card
import Mathlib.Order.Defs.Unbundled

/-! Enumerations of a finite set in a strict order, from one element to the next. -/

namespace Enumeration

variable {α : Type} (r : α → α → Prop) (D : Finset α)

structure IsFirst (b : α) : Prop where
  mem : b ∈ D
  least : ∀ d ∈ D, d = b ∨ r b d

structure IsNext (a b : α) : Prop where
  mem : b ∈ D
  lt : r a b
  least : ∀ d ∈ D, r a d → d = b ∨ r b d

def IsLast (a : α) : Prop := ∀ d ∈ D, ¬ r a d

/-- The list holds the elements of the set with the property, each once. -/
structure Lists (p : α → Prop) (l : List α) : Prop where
  nodup : l.Nodup
  mem : ∀ d, d ∈ l ↔ d ∈ D ∧ p d

open Classical in
/-- How many elements of the set are still to come. -/
noncomputable def after (a : α) : Nat := (D.filter (r a)).card

variable {r D} {a b : α} {l : List α}

theorem IsLast.lists (h : IsLast r D a) : Lists D (r a) [] :=
  ⟨List.nodup_nil, fun d => by simpa using h d⟩

variable [IsStrictOrder α r]

theorem IsNext.mem_iff (h : IsNext r D a b) (d : α) :
    d ∈ D ∧ r a d ↔ d = b ∨ d ∈ D ∧ r b d := by
  constructor
  · rintro ⟨hd, had⟩
    exact (h.least d hd had).imp_right fun hb => ⟨hd, hb⟩
  · rintro (rfl | ⟨hd, hbd⟩)
    · exact ⟨h.mem, h.lt⟩
    · exact ⟨hd, trans_of r h.lt hbd⟩

theorem IsNext.after_lt (h : IsNext r D a b) : after r D b < after r D a := by
  classical
  apply Finset.card_lt_card
  rw [Finset.ssubset_iff_of_subset]
  · refine ⟨b, Finset.mem_filter.mpr ⟨h.mem, h.lt⟩, fun hb => ?_⟩
    exact irrefl_of r b (Finset.mem_filter.mp hb).2
  · intro d hd
    rw [Finset.mem_filter] at hd ⊢
    exact (h.mem_iff d).mpr (Or.inr hd)

theorem Lists.cons_next (hl : Lists D (r b) l) (h : IsNext r D a b) : Lists D (r a) (b :: l) := by
  refine ⟨List.nodup_cons.mpr ⟨fun hb => ?_, hl.nodup⟩, fun d => ?_⟩
  · exact irrefl_of r b ((hl.mem b).mp hb).2
  · rw [List.mem_cons, hl.mem, h.mem_iff]

theorem Lists.cons_first (hl : Lists D (r b) l) (h : IsFirst r D b) :
    Lists D (fun _ => True) (b :: l) := by
  refine ⟨List.nodup_cons.mpr ⟨fun hb => ?_, hl.nodup⟩, fun d => ?_⟩
  · exact irrefl_of r b ((hl.mem b).mp hb).2
  · rw [List.mem_cons, hl.mem]
    constructor
    · rintro (rfl | ⟨hd, -⟩)
      · exact ⟨h.mem, trivial⟩
      · exact ⟨hd, trivial⟩
    · rintro ⟨hd, -⟩
      exact (h.least d hd).imp_right fun hb => ⟨hd, hb⟩

theorem after_lt_card (ha : a ∈ D) : after r D a < D.card := by
  classical
  apply Finset.card_lt_card
  rw [Finset.ssubset_iff_of_subset (Finset.filter_subset (r a) D)]
  exact ⟨a, ha, fun h => irrefl_of r a (Finset.mem_filter.mp h).2⟩

end Enumeration
