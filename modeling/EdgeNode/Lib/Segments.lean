import Mathlib.Data.List.Flatten
import Mathlib.Tactic.Common

/-! A byte stream that arrives in segments, and the counting argument by which a
receiver that loses nothing takes exactly one message at a time. -/

namespace Segments

variable {α β : Type}

/-- One receive into a buffer of `n` bytes. An empty segment is a receive with nothing there. -/
def recv (n : Nat) : List (List α) → List α × List (List α)
  | [] => ([], [])
  | c :: cs => if c.length ≤ n then (c, cs) else (c.take n, c.drop n :: cs)

/-- What one receive into a buffer of `n` bytes can return. -/
abbrev Received (α : Type) (n : Nat) := {c : List α // c.length ≤ n}

theorem recv_flatten (n : Nat) (cs : List (List α)) :
    (recv n cs).1 ++ (recv n cs).2.flatten = cs.flatten := by
  cases cs with
  | nil => rfl
  | cons c cs =>
    by_cases h : c.length ≤ n
    · simp [recv, h]
    · rw [recv, if_neg h, List.flatten_cons, ← List.append_assoc, List.take_append_drop, List.flatten_cons]

theorem recv_length_le (n : Nat) (cs : List (List α)) : (recv n cs).1.length ≤ n := by
  cases cs with
  | nil => simp [recv]
  | cons c cs =>
    by_cases h : c.length ≤ n
    · simp [recv, h]
    · rw [recv, if_neg h]
      exact List.length_take_le n c

theorem recv_of_le {n : Nat} {c : List α} (h : c.length ≤ n) (cs : List (List α)) :
    recv n (c :: cs) = (c, cs) := by
  simp [recv, h]

theorem length_flatten_filter_le (f : β → List α) (p : β → Bool) (l : List β) :
    ((l.filter p).map f).flatten.length ≤ (l.map f).flatten.length := by
  induction l with
  | nil => simp
  | cons x l ih =>
    cases h : p x <;> simp only [List.filter_cons, h, List.map_cons, List.flatten_cons,
      List.length_append, if_true, if_false, Bool.false_eq_true] <;> omega

theorem all_of_length_flatten (f : β → List α) (p : β → Bool) {l : List β}
    (hne : ∀ x ∈ l, f x ≠ [])
    (h : ((l.filter p).map f).flatten.length = (l.map f).flatten.length) :
    ∀ x ∈ l, p x = true := by
  induction l with
  | nil => simp
  | cons x l ih =>
    have hx : 0 < (f x).length := List.length_pos_iff.mpr (hne x (by simp))
    have hle := length_flatten_filter_le f p l
    cases hp : p x with
    | false =>
      simp only [List.filter_cons, hp, List.map_cons, List.flatten_cons, List.length_append,
        Bool.false_eq_true, if_false] at h
      omega
    | true =>
      simp only [List.filter_cons, hp, List.map_cons, List.flatten_cons, List.length_append,
        if_true, Nat.add_left_cancel_iff] at h
      intro y hy
      rcases List.mem_cons.mp hy with rfl | hy
      · exact hp
      · exact ih (fun z hz => hne z (List.mem_cons_of_mem _ hz)) h y hy

/-- The receives `l` of the stream of `m`, of which those with `p` yield messages of the sizes of
`m`: each receive then is a message. -/
theorem receives_eq (f : β → List α) (p : β → Bool) {l : List β} {m : List (List α)}
    (hne : ∀ x ∈ l, f x ≠ []) (hflat : (l.map f).flatten = m.flatten)
    (hlen : (l.filter p).map (fun x => (f x).length) = m.map List.length) :
    (∀ x ∈ l, p x = true) ∧ l.map f = m := by
  have hall : ∀ x ∈ l, p x = true := by
    apply all_of_length_flatten f p hne
    rw [hflat, List.length_flatten, List.length_flatten, ← hlen, List.map_map]
    rfl
  refine ⟨hall, List.eq_iff_flatten_eq.mpr ⟨hflat, ?_⟩⟩
  rw [← hlen, List.filter_eq_self.mpr hall, List.map_map]
  rfl

end Segments
