import Mathlib.Data.List.Nodup
import Mathlib.Tactic.Common

/-! A set kept in the first entries of an array. The entries behind them are stale, and may still
hold what was in the set before. -/

namespace PrefixSet

structure Slots (α : Type) where
  front : List α
  stale : List α

variable {α : Type}

def Slots.ofArray (count : Nat) (l : List α) : Slots α := ⟨l.take count, l.drop count⟩

def Slots.all (p : Slots α) : List α := p.front ++ p.stale

def Slots.push (x : α) (p : Slots α) : Slots α := ⟨p.front ++ [x], p.stale.tail⟩

def Slots.remove [DecidableEq α] (blank x : α) (p : Slots α) : Slots α :=
  ⟨p.front.erase x, blank :: p.stale⟩

/-- The first entries are overwritten, and the others stay as they are. -/
def Slots.refill (xs : List α) (p : Slots α) : Slots α := ⟨xs, p.all.drop xs.length⟩

/-- The set has no entry twice and none that is blank, and unless it is empty a search of the whole
array finds the same elements as one of the first entries. -/
structure IsSet (blank : α) (p : Slots α) : Prop where
  nodup : p.front.Nodup
  blank_notMem : blank ∉ p.front
  stale : p.front ≠ [] → ∀ y ∈ p.stale, y = blank ∨ y ∈ p.front

variable {blank : α} {p : Slots α} {x : α}

theorem ofArray_eq {count : Nat} {l : List α} (hl : l = p.all) (hcount : count = p.front.length) :
    Slots.ofArray count l = p := by
  subst hl hcount
  simp [Slots.ofArray, Slots.all]

theorem ofArray_all (count : Nat) (l : List α) : (Slots.ofArray count l).all = l :=
  List.take_append_drop count l

/-- Storing behind the first entries and counting one more. -/
theorem ofArray_push {count : Nat} {l : List α} (hcount : count < l.length) (x : α) :
    Slots.ofArray (count + 1) (l.set count x) = (Slots.ofArray count l).push x := by
  apply ofArray_eq
  · rw [List.set_eq_take_append_cons_drop, if_pos hcount]
    simp [Slots.ofArray, Slots.push, Slots.all]
  · simp only [Slots.ofArray, Slots.push, List.length_append, List.length_take, List.length_singleton]
    omega

/-- Moving the entries behind an element up, with a blank at the end, and counting one less. -/
theorem ofArray_remove [DecidableEq α] {count : Nat} {l : List α} (blank : α)
    (hcount : count ≤ l.length) (hx : x ∈ l.take count) :
    Slots.ofArray (count - 1) ((l.take count).erase x ++ blank :: l.drop count) =
      (Slots.ofArray count l).remove blank x := by
  apply ofArray_eq
  · rfl
  · show count - 1 = ((l.take count).erase x).length
    rw [List.length_erase_of_mem hx, List.length_take_of_le hcount]

theorem isSet_empty (hfront : p.front = []) : IsSet blank p := by
  constructor <;> simp [hfront]

theorem IsSet.mem_all (h : IsSet blank p) (hx : x ≠ blank) (hp : p.front ≠ []) :
    x ∈ p.all ↔ x ∈ p.front := by
  rw [Slots.all, List.mem_append, or_iff_left_iff_imp]
  intro hmem
  exact (h.stale hp x hmem).resolve_left hx

theorem isSet_refill_iff {xs : List α} : IsSet blank (p.refill xs) ↔ blank ∉ xs ∧ xs.Nodup ∧
    (xs ≠ [] → ∀ y ∈ p.all.drop xs.length, y = blank ∨ y ∈ xs) :=
  ⟨fun h => ⟨h.blank_notMem, h.nodup, h.stale⟩, fun h => ⟨h.2.1, h.1, h.2.2⟩⟩

theorem isSet_push_iff (h : IsSet blank p) (hx : x ∉ p.front) : IsSet blank (p.push x) ↔
    x ≠ blank ∧ (p.front = [] → ∀ y ∈ p.stale.tail, y = blank ∨ y = x) := by
  constructor
  · intro hpush
    refine ⟨fun hblank => hpush.blank_notMem (by simp [Slots.push, hblank]), fun hp y hy => ?_⟩
    simpa [Slots.push, hp] using hpush.stale (by simp [Slots.push]) y hy
  · rintro ⟨hblank, hempty⟩
    refine ⟨?_, ?_, fun _ y hy => ?_⟩
    · show (p.front ++ [x]).Nodup
      rw [← List.concat_eq_append]
      exact List.Nodup.concat hx h.nodup
    · simpa [Slots.push, h.blank_notMem] using hblank.symm
    · by_cases hp : p.front = []
      · simpa [Slots.push, hp] using hempty hp y hy
      · rcases h.stale hp y (List.mem_of_mem_tail hy) with hy | hy
        · exact .inl hy
        · exact .inr (by simp [Slots.push, hy])

theorem isSet_remove_iff [DecidableEq α] (h : IsSet blank p) (hx : x ∈ p.front) :
    IsSet blank (p.remove blank x) ↔ (1 < p.front.length → x ∉ p.stale) := by
  have hne : p.front ≠ [] := List.ne_nil_of_mem hx
  have hxb : x ≠ blank := fun hblank => h.blank_notMem (hblank ▸ hx)
  have hrest : p.front.erase x ≠ [] ↔ 1 < p.front.length := by
    rw [← List.length_pos_iff, List.length_erase_of_mem hx]
    omega
  have herase : x ∉ p.front.erase x := fun hmem => (h.nodup.mem_erase_iff.mp hmem).1 rfl
  constructor
  · intro hremove hlen hstale
    rcases hremove.stale (hrest.mpr hlen) x (List.mem_cons_of_mem _ hstale) with hblank | hmem
    · exact hxb hblank
    · exact herase hmem
  · intro hstale
    refine ⟨h.nodup.erase x, fun hmem => h.blank_notMem (List.mem_of_mem_erase hmem), ?_⟩
    intro hp y hy
    have hxs := hstale (hrest.mp hp)
    rcases List.mem_cons.mp hy with hy | hy
    · exact .inl hy
    · have hyx : y ≠ x := fun heq => hxs (heq ▸ hy)
      exact (h.stale hne y hy).imp_right (List.mem_erase_of_ne hyx).mpr

end PrefixSet
