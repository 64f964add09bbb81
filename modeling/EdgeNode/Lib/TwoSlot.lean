import Mathlib.Data.Nat.Basic
import Mathlib.Logic.Function.Basic
import Mathlib.Tactic.Common

/-! A store with two slots. Entries carry numbers; the entry with the next number goes into the slot
of its parity, and the entry with the larger number is the one that is read back. -/

namespace TwoSlot

/-- An entry that reads back as complete: its number, and when it was written. -/
structure Entry where
  id : Nat
  stamp : Nat

@[ext] structure Store where
  last : Nat
  slot : Bool → Option Entry

def parity (n : Nat) : Bool := n % 2 == 1

namespace Store

def target (s : Store) : Bool := parity (s.last + 1)

def write (now : Nat) (s : Store) : Store where
  last := s.last + 1
  slot := Function.update s.slot s.target (some ⟨s.last + 1, now⟩)

/-- A write that leaves its slot unreadable. -/
def tear (s : Store) : Store where
  last := s.last + 1
  slot := Function.update s.slot s.target none

def renumber (n : Nat) (s : Store) : Store := { s with last := n }

/-- The larger number that reads back, 0 if none does. -/
def newest (s : Store) : Nat :=
  max ((s.slot false).elim 0 Entry.id) ((s.slot true).elim 0 Entry.id)

def Holds (s : Store) : Prop := ∃ b, (s.slot b).isSome = true

/-- Every entry is in the slot of its number. -/
def Marked (s : Store) : Prop := ∀ b e, s.slot b = some e → parity e.id = b ∧ 0 < e.id

/-- The slot that is not written next reads back. -/
def Backed (s : Store) : Prop := (s.slot (parity s.last)).isSome = true

/-- The slot that is not written next has no larger number than the last one. -/
def Ahead (s : Store) : Prop := ∀ e, s.slot (parity s.last) = some e → e.id ≤ s.last

/-- The entry with the larger number is the one written later. -/
def Ordered (s : Store) : Prop :=
  ∀ b e f, s.slot b = some e → s.slot (!b) = some f → e.id < f.id → e.stamp < f.stamp

/-- Nothing was written at `now` or after. -/
def Before (now : Nat) (s : Store) : Prop := ∀ b e, s.slot b = some e → e.stamp < now

variable {s : Store}

theorem parity_succ (n : Nat) : parity (n + 1) = !parity n := by
  rcases Nat.mod_two_eq_zero_or_one n with h | h
  · have h' : (n + 1) % 2 = 1 := by omega
    simp [parity, h, h']
  · have h' : (n + 1) % 2 = 0 := by omega
    simp [parity, h, h']

theorem target_eq (s : Store) : s.target = !parity s.last := parity_succ s.last

@[simp] theorem write_last (now : Nat) : (s.write now).last = s.last + 1 := rfl

@[simp] theorem tear_last : s.tear.last = s.last + 1 := rfl

@[simp] theorem write_slot_target (now : Nat) :
    (s.write now).slot s.target = some ⟨s.last + 1, now⟩ := by
  simp [write]

@[simp] theorem write_slot_other (now : Nat) :
    (s.write now).slot (parity s.last) = s.slot (parity s.last) := by
  simp [write, target_eq]

@[simp] theorem tear_slot_target : s.tear.slot s.target = none := by
  simp [tear]

@[simp] theorem tear_slot_other : s.tear.slot (parity s.last) = s.slot (parity s.last) := by
  simp [tear, target_eq]

theorem slot_cases (s : Store) (b : Bool) : b = s.target ∨ b = parity s.last := by
  rw [target_eq]
  cases b <;> cases parity s.last <;> simp

theorem Marked.write (h : s.Marked) (now : Nat) : (s.write now).Marked := by
  intro b e he
  rcases s.slot_cases b with rfl | rfl
  · rw [write_slot_target] at he
    cases he
    exact ⟨rfl, Nat.succ_pos _⟩
  · rw [write_slot_other] at he
    exact h _ e he

theorem Marked.tear (h : s.Marked) : s.tear.Marked := by
  intro b e he
  rcases s.slot_cases b with rfl | rfl
  · simp at he
  · rw [tear_slot_other] at he
    exact h _ e he

theorem holds_write (now : Nat) : (s.write now).Holds :=
  ⟨s.target, by rw [write_slot_target]; rfl⟩

theorem backed_write (now : Nat) : (s.write now).Backed := by
  have ht : parity (s.write now).last = s.target := rfl
  rw [Backed, ht, write_slot_target]
  rfl

theorem Backed.tear (h : s.Backed) : (s.tear.slot (!parity s.tear.last)).isSome = true := by
  rw [tear_last, parity_succ, Bool.not_not, tear_slot_other]
  exact h

theorem holds_of_tear (h : s.tear.Holds) : s.Holds := by
  obtain ⟨b, hb⟩ := h
  rcases s.slot_cases b with rfl | rfl
  · rw [tear_slot_target] at hb
    cases hb
  · exact ⟨_, by rwa [tear_slot_other] at hb⟩

theorem Backed.holds (h : s.Backed) : s.Holds := ⟨_, h⟩

theorem ahead_write (now : Nat) : (s.write now).Ahead := by
  intro e he
  have ht : parity (s.write now).last = s.target := rfl
  rw [ht, write_slot_target] at he
  cases he
  exact Nat.le_refl _

theorem ahead_tear : s.tear.Ahead := by
  intro e he
  have ht : parity s.tear.last = s.target := rfl
  rw [ht, tear_slot_target] at he
  cases he

theorem Ahead.ordered_write {now : Nat} (h : s.Ahead) (hb : s.Before now) :
    (s.write now).Ordered := by
  intro b e f he hf hlt
  rcases s.slot_cases b with rfl | rfl
  · rw [write_slot_target] at he
    rw [target_eq, Bool.not_not, write_slot_other] at hf
    cases he
    have hle := h f hf
    dsimp only at hlt
    omega
  · rw [write_slot_other] at he
    rw [← target_eq, write_slot_target] at hf
    cases hf
    exact hb _ e he

theorem ordered_tear : s.tear.Ordered := by
  intro b e f he hf _
  rcases s.slot_cases b with rfl | rfl
  · rw [tear_slot_target] at he
    cases he
  · rw [← target_eq, tear_slot_target] at hf
    cases hf

theorem ordered_of_none {b : Bool} (h : s.slot b = none) : s.Ordered := by
  intro c e f he hf _
  by_cases hc : c = b
  · rw [hc, h] at he
    cases he
  · rw [Bool.eq_not_of_ne hc, Bool.not_not, h] at hf
    cases hf

theorem Before.write {now : Nat} (h : s.Before now) : (s.write now).Before (now + 1) := by
  intro b e he
  rcases s.slot_cases b with rfl | rfl
  · rw [write_slot_target] at he
    cases he
    exact Nat.lt_succ_self _
  · rw [write_slot_other] at he
    exact Nat.lt_succ_of_lt (h _ e he)

theorem Before.tear {now : Nat} (h : s.Before now) : s.tear.Before now := by
  intro b e he
  rcases s.slot_cases b with rfl | rfl
  · simp at he
  · rw [tear_slot_other] at he
    exact h _ e he

theorem le_newest {b : Bool} {e : Entry} (h : s.slot b = some e) : e.id ≤ s.newest := by
  cases b with
  | false =>
    rw [newest, h]
    exact Nat.le_max_left _ _
  | true =>
    rw [newest, h]
    exact Nat.le_max_right _ _

theorem exists_newest (h : s.Holds) : ∃ b e, s.slot b = some e ∧ e.id = s.newest := by
  cases hf : s.slot false with
  | none =>
    cases ht : s.slot true with
    | none =>
      obtain ⟨b, hb⟩ := h
      cases b
      · simp [hf] at hb
      · simp [ht] at hb
    | some f => exact ⟨true, f, ht, by simp [newest, hf, ht]⟩
  | some e =>
    cases ht : s.slot true with
    | none => exact ⟨false, e, hf, by simp [newest, hf, ht]⟩
    | some f =>
      rcases Nat.le_total e.id f.id with hle | hle
      · exact ⟨true, f, ht, by simp [newest, hf, ht, Nat.max_eq_right hle]⟩
      · exact ⟨false, e, hf, by simp [newest, hf, ht, Nat.max_eq_left hle]⟩

theorem newest_pos (hm : s.Marked) (h : s.Holds) : 0 < s.newest := by
  obtain ⟨b, e, he, hn⟩ := exists_newest h
  rw [← hn]
  exact (hm b e he).2

theorem newest_eq_zero (h : ¬ s.Holds) : s.newest = 0 := by
  have hnone : ∀ b, s.slot b = none := by
    intro b
    by_contra hb
    exact h ⟨b, Option.isSome_iff_ne_none.mpr hb⟩
  simp [newest, hnone]

theorem backed_renumber (hm : s.Marked) (h : s.Holds) : (s.renumber s.newest).Backed := by
  obtain ⟨b, e, he, hn⟩ := exists_newest h
  have hp : parity s.newest = b := hn ▸ (hm b e he).1
  change (s.slot (parity s.newest)).isSome = true
  rw [hp, he]
  rfl

theorem ahead_renumber : (s.renumber s.newest).Ahead := by
  intro e he
  exact le_newest he

end Store

end TwoSlot
