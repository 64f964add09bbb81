import Mathlib.Data.List.Basic
import Mathlib.Data.List.Induction
import Mathlib.Data.List.Nodup
import Mathlib.Logic.Function.Basic
import Mathlib.Tactic.Common

/-! Cells on a ring, each with a pointer to the next and one to the one before. -/

namespace LinkedRing

variable {ι : Type} [DecidableEq ι]

section Path

/-- Each of `ps` leads to the next of them, and the last one to `e`. -/
def Path (f : ι → Option ι) : List ι → ι → Prop
  | [], _ => True
  | p :: ps, e => f p = some (ps.headD e) ∧ Path f ps e

/-- The places from `p` on until `h` is met. -/
def walk (f : ι → Option ι) (h : ι) : Nat → ι → Option (List ι)
  | 0, _ => none
  | n + 1, p => if p = h then some [] else do
    let q ← f p
    let ps ← walk f h n q
    some (p :: ps)

variable {f g : ι → Option ι} {ps qs : List ι} {e h p x : ι}

omit [DecidableEq ι] in
theorem path_append : Path f (ps ++ qs) e ↔ Path f ps (qs.headD e) ∧ Path f qs e := by
  induction ps with
  | nil => simp [Path]
  | cons p ps ih =>
    have hhead : (ps ++ qs).headD e = ps.headD (qs.headD e) := by cases ps <;> rfl
    rw [List.cons_append, Path, Path, ih, hhead, and_assoc]

omit [DecidableEq ι] in
theorem Path.congr (hf : Path f ps e) (h : ∀ p ∈ ps, g p = f p) : Path g ps e := by
  induction ps with
  | nil => trivial
  | cons p ps ih =>
    exact ⟨(h p List.mem_cons_self).trans hf.1, ih hf.2 fun q hq => h q (List.mem_cons_of_mem p hq)⟩

theorem Path.updated (hf : Path f ps e) (h : p ∉ ps) (v : Option ι) :
    Path (Function.update f p v) ps e :=
  hf.congr fun _ hq => Function.update_of_ne (ne_of_mem_of_not_mem hq h) v f

omit [DecidableEq ι] in
theorem Path.eq_some (hf : Path f (ps ++ p :: qs) e) : f p = some (qs.headD e) :=
  (path_append.mp hf).2.1

omit [DecidableEq ι] in
theorem Path.ne_none (hf : Path f ps e) (h : p ∈ ps) : f p ≠ none := by
  obtain ⟨ps, qs, rfl⟩ := List.append_of_mem h
  rw [hf.eq_some]
  exact Option.some_ne_none _

/-- A place is put on the path behind another. -/
theorem Path.insert (hf : Path f (ps ++ p :: qs) e) (hnd : (ps ++ p :: qs).Nodup)
    (hx : x ∉ ps ++ p :: qs) :
    Path (Function.update (Function.update f x (some (qs.headD e))) p (some x))
      (ps ++ p :: x :: qs) e := by
  obtain ⟨hps, hp⟩ := path_append.mp hf
  obtain ⟨-, hndp, hdis⟩ := List.nodup_append.mp hnd
  rw [List.mem_append, List.mem_cons] at hx
  push Not at hx
  refine path_append.mpr ⟨(hps.updated hx.1 _).updated ?_ _, Function.update_self .., ?_, ?_⟩
  · exact fun hmem => hdis p hmem p List.mem_cons_self rfl
  · rw [Function.update_of_ne hx.2.1, Function.update_self]
  · exact (hp.2.updated hx.2.2 _).updated (List.nodup_cons.mp hndp).1 _

/-- A place is taken off the path. -/
theorem Path.unlink (hf : Path f (ps ++ p :: x :: qs) e) (hnd : (ps ++ p :: x :: qs).Nodup) :
    Path (Function.update f p (some (qs.headD e))) (ps ++ p :: qs) e := by
  obtain ⟨hps, hp⟩ := path_append.mp hf
  obtain ⟨-, hndp, hdis⟩ := List.nodup_append.mp hnd
  refine path_append.mpr ⟨hps.updated ?_ _, Function.update_self .., hp.2.2.updated ?_ _⟩
  · exact fun hmem => hdis p hmem p List.mem_cons_self rfl
  · exact fun hmem => (List.nodup_cons.mp hndp).1 (List.mem_cons_of_mem x hmem)

theorem Path.walk (hf : Path f ps h) (hh : h ∉ ps) :
    walk f h (ps.length + 1) (ps.headD h) = some ps := by
  induction ps with
  | nil => simp [LinkedRing.walk]
  | cons p ps ih =>
    have hne : p ≠ h := fun heq => hh (heq ▸ List.mem_cons_self)
    have hrest := ih hf.2 fun hmem => hh (List.mem_cons_of_mem p hmem)
    rw [List.length_cons, LinkedRing.walk, List.headD_cons, if_neg hne, hf.1]
    rw [Option.bind_eq_bind, Option.bind_some, hrest]
    rfl

end Path

section Ring

/-- From `h` on the places `ps` follow each other, back to `h`, and the same the other way round. -/
structure Ring (next prev : ι → Option ι) (h : ι) (ps : List ι) : Prop where
  nodup : (h :: ps).Nodup
  forward : Path next (h :: ps) h
  backward : Path prev (h :: ps.reverse) h

variable {next prev : ι → Option ι} {h x : ι} {ps qs : List ι}

omit [DecidableEq ι] in
theorem cons_eq_concat (h : ι) (ps : List ι) : ∃ l, h :: ps = l ++ [ps.getLastD h] := by
  cases ps using List.reverseRecOn with
  | nil => exact ⟨[], rfl⟩
  | append_singleton ps p => exact ⟨h :: ps, by simp⟩

omit [DecidableEq ι] in
theorem headD_reverse (h : ι) (ps : List ι) : ps.reverse.headD h = ps.getLastD h := by
  cases ps using List.reverseRecOn <;> simp

omit [DecidableEq ι] in
theorem getLastD_reverse (h : ι) (ps : List ι) : ps.reverse.getLastD h = ps.headD h := by
  cases ps <;> simp

namespace Ring

omit [DecidableEq ι] in
theorem single (hn : next h = some h) (hp : prev h = some h) : Ring next prev h [] :=
  ⟨by simp, ⟨hn, trivial⟩, ⟨hp, trivial⟩⟩

omit [DecidableEq ι] in
/-- The other way round it is a ring too. -/
theorem reverse (hr : Ring next prev h ps) : Ring prev next h ps.reverse where
  nodup := by
    have hnd := hr.nodup
    rw [List.nodup_cons] at hnd ⊢
    simpa using hnd
  forward := hr.backward
  backward := by
    rw [List.reverse_reverse]
    exact hr.forward

omit [DecidableEq ι] in
theorem next_eq (hr : Ring next prev h (ps ++ qs)) :
    next (ps.getLastD h) = some (qs.headD h) := by
  obtain ⟨l, hl⟩ := cons_eq_concat h ps
  have hf := hr.forward
  rw [← List.cons_append, hl, List.append_assoc] at hf
  exact hf.eq_some

omit [DecidableEq ι] in
theorem prev_eq (hr : Ring next prev h (ps ++ qs)) :
    prev (qs.headD h) = some (ps.getLastD h) := by
  have hrev := hr.reverse
  rw [List.reverse_append] at hrev
  have heq := hrev.next_eq
  rwa [getLastD_reverse, headD_reverse] at heq

omit [DecidableEq ι] in
theorem getLastD_mem (h : ι) (ps qs : List ι) : ps.getLastD h ∈ h :: (ps ++ qs) := by
  obtain ⟨l, hl⟩ := cons_eq_concat h ps
  rw [← List.cons_append, hl]
  simp

omit [DecidableEq ι] in
theorem headD_mem (h : ι) (ps qs : List ι) : qs.headD h ∈ h :: (ps ++ qs) := by
  cases qs <;> simp

/-- One direction of a ring with a place more in it. -/
theorem forward_insert (hr : Ring next prev h (ps ++ qs)) (hx : x ∉ h :: (ps ++ qs)) :
    Path (Function.update (Function.update next x (some (qs.headD h))) (ps.getLastD h) (some x))
      (h :: (ps ++ x :: qs)) h := by
  obtain ⟨l, hl⟩ := cons_eq_concat h ps
  have hf := hr.forward
  have hnd := hr.nodup
  rw [← List.cons_append, hl, List.append_assoc] at hf hnd hx
  have hnew := hf.insert hnd hx
  rwa [List.append_cons, ← hl, List.cons_append] at hnew

/-- Between two neighbours a place is put that was not on the ring. -/
theorem insert (hr : Ring next prev h (ps ++ qs)) (hx : x ∉ h :: (ps ++ qs)) :
    Ring (Function.update (Function.update next x (some (qs.headD h))) (ps.getLastD h) (some x))
      (Function.update (Function.update prev x (some (ps.getLastD h))) (qs.headD h) (some x))
      h (ps ++ x :: qs) where
  nodup := by
    have hperm : (h :: (ps ++ x :: qs)).Perm (x :: h :: (ps ++ qs)) :=
      (List.perm_middle.cons h).trans (List.Perm.swap x h _)
    exact hperm.nodup_iff.mpr (List.nodup_cons.mpr ⟨hx, hr.nodup⟩)
  forward := hr.forward_insert hx
  backward := by
    have hrev := hr.reverse
    rw [List.reverse_append] at hrev
    have hnew := hrev.forward_insert (x := x) (by simpa [or_comm] using hx)
    have hlist : (ps ++ x :: qs).reverse = qs.reverse ++ x :: ps.reverse := by simp
    rwa [headD_reverse, getLastD_reverse, ← hlist] at hnew

theorem forward_unlink (hr : Ring next prev h (ps ++ x :: qs)) :
    Path (Function.update next (ps.getLastD h) (some (qs.headD h))) (h :: (ps ++ qs)) h := by
  obtain ⟨l, hl⟩ := cons_eq_concat h ps
  have hf := hr.forward
  have hnd := hr.nodup
  rw [← List.cons_append, hl, List.append_assoc] at hf hnd
  have hnew := hf.unlink hnd
  rwa [List.append_cons, ← hl, List.cons_append] at hnew

/-- A place is taken off the ring, and its neighbours become neighbours. -/
theorem unlink (hr : Ring next prev h (ps ++ x :: qs)) :
    Ring (Function.update next (ps.getLastD h) (some (qs.headD h)))
      (Function.update prev (qs.headD h) (some (ps.getLastD h))) h (ps ++ qs) where
  nodup := hr.nodup.sublist (((List.sublist_cons_self x qs).append_left ps).cons_cons h)
  forward := hr.forward_unlink
  backward := by
    have hrev := hr.reverse
    have hlist : (ps ++ x :: qs).reverse = qs.reverse ++ x :: ps.reverse := by simp
    rw [hlist] at hrev
    have hnew := hrev.forward_unlink
    rwa [headD_reverse, getLastD_reverse, ← List.reverse_append] at hnew

omit [DecidableEq ι] in
/-- Pointers of other places do not matter. -/
theorem congr {next' prev' : ι → Option ι} (hr : Ring next prev h ps)
    (hn : ∀ p ∈ h :: ps, next' p = next p) (hp : ∀ p ∈ h :: ps, prev' p = prev p) :
    Ring next' prev' h ps where
  nodup := hr.nodup
  forward := hr.forward.congr hn
  backward := hr.backward.congr fun p hmem => hp p (by simpa using hmem)

theorem update (hr : Ring next prev h ps) (hx : x ∉ h :: ps) (v w : Option ι) :
    Ring (Function.update next x v) (Function.update prev x w) h ps :=
  hr.congr (fun _ hp => Function.update_of_ne (ne_of_mem_of_not_mem hp hx) v next)
    fun _ hp => Function.update_of_ne (ne_of_mem_of_not_mem hp hx) w prev

theorem walk_next (hr : Ring next prev h ps) :
    walk next h (ps.length + 1) (ps.headD h) = some ps :=
  hr.forward.2.walk (List.nodup_cons.mp hr.nodup).1

end Ring

end Ring

end LinkedRing
