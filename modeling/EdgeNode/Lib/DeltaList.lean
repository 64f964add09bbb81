import Mathlib.Algebra.Group.Nat.Defs
import Mathlib.Data.List.Perm.Basic
import Mathlib.Data.List.TakeWhile
import Mathlib.Tactic.Common

/-! Delta lists: each element carries its distance to the one before it, and stands for the sum of
the distances up to it. -/

namespace DeltaList

variable {ι : Type}

/-- The elements with their absolute times, where the first distance counts from `b`. -/
def times (b : Nat) : List (ι × Nat) → List (ι × Nat)
  | [] => []
  | (i, d) :: l => (i, b + d) :: times (b + d) l

def insert (i : ι) (t : Nat) : List (ι × Nat) → List (ι × Nat)
  | [] => [(i, t)]
  | (j, d) :: l => if t < d then (i, t) :: (j, d - t) :: l else (j, d) :: insert i (t - d) l

/-- The first element moves away by `d`, and with it all the others. -/
def delay (d : Nat) : List (ι × Nat) → List (ι × Nat)
  | [] => []
  | (j, x) :: l => (j, x + d) :: l

def remove [DecidableEq ι] (i : ι) : List (ι × Nat) → List (ι × Nat)
  | [] => []
  | (j, d) :: l => if j = i then delay d l else (j, d) :: remove i l

/-- The elements at distance zero from the start of the list. -/
def reached (l : List (ι × Nat)) : List ι := (l.takeWhile fun x => x.2 = 0).map Prod.fst

def rest (l : List (ι × Nat)) : List (ι × Nat) := l.dropWhile fun x => x.2 = 0

variable {i : ι} {b t : Nat} {l : List (ι × Nat)}

@[simp] theorem times_nil : times b ([] : List (ι × Nat)) = [] := rfl

@[simp] theorem times_cons (d : Nat) :
    times b ((i, d) :: l) = (i, b + d) :: times (b + d) l := rfl

theorem times_keys : (times b l).map Prod.fst = l.map Prod.fst := by
  induction l generalizing b with
  | nil => rfl
  | cons x l ih =>
    obtain ⟨j, d⟩ := x
    simp [ih]

theorem le_of_mem_times {x : ι × Nat} (h : x ∈ times b l) : b ≤ x.2 := by
  induction l generalizing b with
  | nil => simp at h
  | cons y l ih =>
    obtain ⟨j, d⟩ := y
    rw [times_cons, List.mem_cons] at h
    obtain rfl | h := h
    · exact Nat.le_add_right b d
    · exact Nat.le_trans (Nat.le_add_right b d) (ih h)

theorem times_add (c : Nat) :
    times (b + c) l = (times b l).map fun x => (x.1, x.2 + c) := by
  induction l generalizing b with
  | nil => rfl
  | cons x l ih =>
    obtain ⟨j, d⟩ := x
    rw [times_cons, times_cons, List.map_cons, ← ih, Nat.add_right_comm]

theorem times_delay (d : Nat) : times b (delay d l) = times (b + d) l := by
  cases l with
  | nil => rfl
  | cons x l =>
    obtain ⟨j, c⟩ := x
    rw [delay, times_cons, times_cons, Nat.add_assoc, Nat.add_comm c d]

theorem times_insert : (times b (insert i t l)).Perm ((i, b + t) :: times b l) := by
  induction l generalizing b t with
  | nil => exact List.Perm.refl _
  | cons x l ih =>
    obtain ⟨j, d⟩ := x
    rw [insert]
    by_cases h : t < d
    · rw [if_pos h, times_cons, times_cons, times_cons]
      have hd : b + t + (d - t) = b + d := by omega
      rw [hd]
    · rw [if_neg h, times_cons, times_cons]
      have hd : b + d + (t - d) = b + t := by omega
      have hp := ih (b := b + d) (t := t - d)
      rw [hd] at hp
      exact (hp.cons _).trans (List.Perm.swap _ _ _)

theorem times_remove [DecidableEq ι] :
    times b (remove i l) = (times b l).eraseP fun x => x.1 = i := by
  induction l generalizing b with
  | nil => rfl
  | cons x l ih =>
    obtain ⟨j, d⟩ := x
    rw [remove, times_cons]
    by_cases h : j = i
    · rw [if_pos h, times_delay, List.eraseP_cons_of_pos (by simpa using h)]
    · rw [if_neg h, times_cons, ih, List.eraseP_cons_of_neg (by simpa using h)]

theorem mem_eraseP_key [DecidableEq ι] {m : List (ι × Nat)} (h : (m.map Prod.fst).Nodup)
    {x : ι × Nat} : x ∈ m.eraseP (fun y => y.1 = i) ↔ x ∈ m ∧ x.1 ≠ i := by
  induction m with
  | nil => simp
  | cons y m ih =>
    rw [List.map_cons, List.nodup_cons] at h
    by_cases hy : y.1 = i
    · rw [List.eraseP_cons_of_pos (by simpa using hy), List.mem_cons]
      constructor
      · intro hx
        refine ⟨Or.inr hx, fun hi => h.1 ?_⟩
        rw [hy, ← hi]
        exact List.mem_map_of_mem hx
      · rintro ⟨rfl | hx, hi⟩
        · exact absurd hy hi
        · exact hx
    · rw [List.eraseP_cons_of_neg (by simpa using hy), List.mem_cons, List.mem_cons, ih h.2]
      constructor
      · rintro (rfl | ⟨hx, hi⟩)
        · exact ⟨Or.inl rfl, hy⟩
        · exact ⟨Or.inr hx, hi⟩
      · rintro ⟨rfl | hx, hi⟩
        · exact Or.inl rfl
        · exact Or.inr ⟨hx, hi⟩

theorem mem_times_remove [DecidableEq ι] (h : (l.map Prod.fst).Nodup) {x : ι × Nat} :
    x ∈ times b (remove i l) ↔ x ∈ times b l ∧ x.1 ≠ i := by
  rw [times_remove]
  exact mem_eraseP_key (by rwa [times_keys])

theorem remove_keys [DecidableEq ι] (h : (l.map Prod.fst).Nodup) :
    ((remove i l).map Prod.fst).Nodup := by
  rw [← times_keys (b := 0), times_remove]
  rw [← times_keys (b := 0)] at h
  exact h.sublist (List.eraseP_sublist.map Prod.fst)

theorem mem_reached : i ∈ reached l ↔ ∃ d, (i, d) ∈ times b l ∧ d ≤ b := by
  induction l with
  | nil => simp [reached]
  | cons x l ih =>
    obtain ⟨j, c⟩ := x
    by_cases hc : c = 0
    · subst hc
      have hr : reached ((j, 0) :: l) = j :: reached l := by simp [reached]
      rw [hr, List.mem_cons, ih, times_cons]
      constructor
      · rintro (rfl | ⟨d, hd, hle⟩)
        · exact ⟨b, by simp, Nat.le_refl b⟩
        · exact ⟨d, List.mem_cons_of_mem _ hd, hle⟩
      · rintro ⟨d, hd, hle⟩
        obtain he | hd := List.mem_cons.mp hd
        · exact Or.inl (congrArg Prod.fst he)
        · exact Or.inr ⟨d, hd, hle⟩
    · have hr : reached ((j, c) :: l) = [] := by simp [reached, hc]
      rw [hr, times_cons]
      constructor
      · intro h
        simp at h
      · rintro ⟨d, hd, hle⟩
        have hlt : b + c ≤ d := by
          obtain he | hd := List.mem_cons.mp hd
          · exact Nat.le_of_eq (congrArg Prod.snd he).symm
          · exact le_of_mem_times hd
        omega

theorem mem_times_rest {x : ι × Nat} : x ∈ times b (rest l) ↔ x ∈ times b l ∧ b < x.2 := by
  induction l with
  | nil => simp [rest]
  | cons y l ih =>
    obtain ⟨j, c⟩ := y
    by_cases hc : c = 0
    · subst hc
      have hr : rest ((j, 0) :: l) = rest l := by simp [rest]
      rw [hr, ih, times_cons, List.mem_cons]
      constructor
      · rintro ⟨hx, hlt⟩
        exact ⟨Or.inr hx, hlt⟩
      · rintro ⟨rfl | hx, hlt⟩
        · exact absurd hlt (Nat.lt_irrefl b)
        · exact ⟨hx, hlt⟩
    · have hr : rest ((j, c) :: l) = (j, c) :: l := by simp [rest, hc]
      rw [hr, times_cons]
      constructor
      · intro hx
        refine ⟨hx, ?_⟩
        obtain rfl | hx := List.mem_cons.mp hx
        · exact Nat.lt_add_of_pos_right (Nat.pos_of_ne_zero hc)
        · have hle := le_of_mem_times hx
          omega
      · exact fun hx => hx.1

theorem reached_of_zero (h : ∀ x ∈ l, x.2 = 0) : reached l = l.map Prod.fst := by
  rw [reached, List.takeWhile_eq_self_iff.mpr (by simpa using h)]

theorem rest_of_zero (h : ∀ x ∈ l, x.2 = 0) : rest l = [] := by
  rw [rest, List.dropWhile_eq_nil_iff]
  simpa using h

theorem times_of_zero (h : ∀ x ∈ l, x.2 = 0) {x : ι × Nat} (hx : x ∈ times b l) : x.2 = b := by
  induction l with
  | nil => simp at hx
  | cons y l ih =>
    obtain ⟨j, d⟩ := y
    obtain rfl : d = 0 := h (j, d) (by simp)
    obtain rfl | hx := List.mem_cons.mp hx
    · rfl
    · exact ih (fun z hz => h z (by simp [hz])) hx

theorem reached_nodup (h : (l.map Prod.fst).Nodup) : (reached l).Nodup :=
  h.sublist ((List.takeWhile_sublist _).map Prod.fst)

theorem rest_keys (h : (l.map Prod.fst).Nodup) : ((rest l).map Prod.fst).Nodup :=
  h.sublist ((List.dropWhile_sublist _).map Prod.fst)

end DeltaList
