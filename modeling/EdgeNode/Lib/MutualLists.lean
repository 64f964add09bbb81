import Mathlib.Data.List.Basic
import Mathlib.Logic.Function.Basic
import Mathlib.Tactic.Common

/-! Two families of lists that name each other's members, and what keeps them mutual. -/

namespace MutualLists

variable {α β : Type} {f : α → List β} {g : β → List α} {a : α} {b : β}

def Mutual (f : α → List β) (g : β → List α) : Prop := ∀ a b, b ∈ f a ↔ a ∈ g b

theorem Mutual.symm (h : Mutual f g) : Mutual g f := fun b a => (h a b).symm

theorem mutual_comm : Mutual f g ↔ Mutual g f := ⟨Mutual.symm, Mutual.symm⟩

variable [DecidableEq α] [DecidableEq β]

/-- Two lists changed at one pair are mutual exactly when they agree on that pair. -/
theorem Mutual.update_iff (h : Mutual f g) {xs : List β} {ys : List α}
    (hxs : ∀ c, c ≠ b → (c ∈ xs ↔ c ∈ f a)) (hys : ∀ c, c ≠ a → (c ∈ ys ↔ c ∈ g b)) :
    Mutual (Function.update f a xs) (Function.update g b ys) ↔ (b ∈ xs ↔ a ∈ ys) := by
  constructor
  · intro hm
    simpa using hm a b
  · intro hab c d
    by_cases hc : c = a
    · subst hc
      by_cases hd : d = b
      · subst hd
        simpa using hab
      · rw [Function.update_self, Function.update_of_ne hd, hxs d hd]
        exact h c d
    · rw [Function.update_of_ne hc]
      by_cases hd : d = b
      · subst hd
        rw [Function.update_self, hys c hc]
        exact h c d
      · rw [Function.update_of_ne hd]
        exact h c d

theorem Mutual.erase_iff (h : Mutual f g) (a : α) (b : β) :
    Mutual (Function.update f a ((f a).erase b)) (Function.update g b ((g b).erase a)) ↔
      (b ∈ (f a).erase b ↔ a ∈ (g b).erase a) :=
  h.update_iff (fun _ hc => List.mem_erase_of_ne hc) fun _ hc => List.mem_erase_of_ne hc

omit [DecidableEq β] in
theorem Mutual.forget_iff (h : Mutual f g) (a : α) :
    Mutual (Function.update f a []) g ↔ f a = [] := by
  constructor
  · intro hm
    refine List.eq_nil_iff_forall_not_mem.mpr fun b hb => ?_
    have hn := (hm a b).mpr ((h a b).mp hb)
    simp at hn
  · intro he
    rw [← he, Function.update_eq_self]
    exact h

end MutualLists
