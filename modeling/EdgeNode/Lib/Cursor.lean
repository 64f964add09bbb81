/-! What a cursor hands out: a first call, and calls for the next until nothing comes. -/

namespace Cursor

variable {σ β : Type}

/-- The answers from a call on, up to the first that is empty. -/
inductive Drains (next : σ → Option β × σ) : Option β × σ → List β → Prop
  | done (s : σ) : Drains next (none, s) []
  | more (b : β) {s : σ} {l : List β} (h : Drains next (next s) l) : Drains next (some b, s) (b :: l)

variable {next : σ → Option β × σ}

theorem Drains.unique {c : Option β × σ} {l m : List β} (hl : Drains next c l)
    (hm : Drains next c m) : l = m := by
  induction hl generalizing m with
  | done s => cases hm; rfl
  | more b _ ih =>
    cases hm with
    | more _ h => rw [ih h]

/-- A cursor that walks along a list by index hands out what stands behind the index. -/
theorem drains_drop {l : List β} {at_ : Nat → σ}
    (h : ∀ i < l.length, next (at_ i) = (l[i + 1]?, at_ (i + 1))) (i : Nat) :
    Drains next (l[i]?, at_ i) (l.drop i) := by
  by_cases hi : i < l.length
  · rw [List.getElem?_eq_getElem hi, List.drop_eq_getElem_cons hi]
    refine .more _ ?_
    rw [h i hi]
    exact drains_drop h (i + 1)
  · rw [List.getElem?_eq_none (by omega), List.drop_eq_nil_of_le (by omega)]
    exact .done _
termination_by l.length - i

theorem drains_list {l : List β} {at_ : Nat → σ}
    (h : ∀ i < l.length, next (at_ i) = (l[i + 1]?, at_ (i + 1))) :
    Drains next (l[0]?, at_ 0) l :=
  drains_drop h 0

end Cursor
