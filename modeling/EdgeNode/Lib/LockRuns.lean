import EdgeNode.Lib.Runs
import Mathlib.Data.Finset.Basic
import Mathlib.Tactic.Common

/-! What a piece of code does to locks on its way: its calls on them in order, and how it ends. The
rules say which locks are held before and behind each piece. -/

namespace LockRuns

open Runs

inductive Act (κ : Type) where
  | enable (k : κ)
  | disable (k : κ)
  deriving DecidableEq

/-- A piece of code returns, or stops where it is for ever, or is seen in the middle of a loop that
waits for something. -/
inductive Outcome (α : Type) where
  | returned (a : α)
  | stopped
  | waiting

structure Run (κ α : Type) where
  acts : List (Act κ)
  outcome : Outcome α

namespace Run

variable {κ α β : Type}

def enable (k : κ) : Run κ Unit := ⟨[.enable k], .returned ()⟩

def disable (k : κ) : Run κ Unit := ⟨[.disable k], .returned ()⟩

def stop : Run κ α := ⟨[], .stopped⟩

def wait : Run κ α := ⟨[], .waiting⟩

protected def pure (a : α) : Run κ α := ⟨[], .returned a⟩

protected def bind (r : Run κ α) (f : α → Run κ β) : Run κ β :=
  match r.outcome with
  | .returned a => ⟨r.acts ++ (f a).acts, (f a).outcome⟩
  | .stopped => ⟨r.acts, .stopped⟩
  | .waiting => ⟨r.acts, .waiting⟩

instance : Monad (Run κ) where
  pure := Run.pure
  bind := Run.bind

theorem returned_bind {r : Run κ α} {f : α → Run κ β} {b : β} (h : (r >>= f).outcome = .returned b) :
    ∃ a, r.outcome = .returned a ∧ (f a).outcome = .returned b := by
  obtain ⟨acts, outcome⟩ := r
  cases outcome with
  | returned a => exact ⟨a, rfl, h⟩
  | stopped => cases h
  | waiting => cases h

theorem bind_returned {r : Run κ α} {f : α → Run κ β} {a : α} (h : r.outcome = .returned a) :
    (r >>= f).outcome = (f a).outcome := by
  obtain ⟨acts, outcome⟩ := r
  cases h
  rfl

theorem bind_stopped {r : Run κ α} {f : α → Run κ β} (h : r.outcome = .stopped) :
    (r >>= f).outcome = .stopped := by
  obtain ⟨acts, outcome⟩ := r
  cases h
  rfl

theorem bind_waiting {r : Run κ α} {f : α → Run κ β} (h : r.outcome = .waiting) :
    (r >>= f).outcome = .waiting := by
  obtain ⟨acts, outcome⟩ := r
  cases h
  rfl

end Run

variable {κ α β : Type} [DecidableEq κ] (isLock : κ → Prop) [DecidablePred isLock]

/-- No lock is taken that is held, and at the end each was given back as often as it was taken. -/
structure Balanced (r : Run κ α) : Prop where
  fresh : ∀ k, isLock k → ∀ pre, pre ++ [.enable k] <+: r.acts →
    pre.count (.enable k) = pre.count (.disable k)
  released : r.outcome ≠ .waiting → ∀ k, isLock k →
    r.acts.count (.disable k) = r.acts.count (.enable k)

/-- The locks that are held behind an act, if it takes none that is held and gives back only such. -/
def hold (held : Finset κ) : Act κ → Option (Finset κ)
  | .enable k => if isLock k then if k ∈ held then none else some (insert k held) else some held
  | .disable k => if isLock k then if k ∈ held then some (held.erase k) else none else some held

/-- From the locks held before, code takes and gives back as it should; where it returns, the locks
behind it are held, and where it stops, none is. -/
def Triple (before : Finset κ) (r : Run κ α) (behind : Finset κ) : Prop :=
  ∃ held, exec (hold isLock) r.acts before = some held ∧
    match r.outcome with
    | .returned _ => held = behind
    | .stopped => held = ∅
    | .waiting => True

variable {isLock} {H M Q : Finset κ} {k : κ}

namespace Triple

theorem pure (a : α) : Triple isLock H (Pure.pure a : Run κ α) H := ⟨H, rfl, rfl⟩

theorem stop : Triple isLock ∅ (Run.stop : Run κ α) Q := ⟨∅, rfl, rfl⟩

theorem wait : Triple isLock H (Run.wait : Run κ α) Q := ⟨H, rfl, trivial⟩

theorem bind_of_returned {r : Run κ α} {f : α → Run κ β} (hr : Triple isLock H r M)
    (hf : ∀ a, r.outcome = .returned a → Triple isLock M (f a) Q) :
    Triple isLock H (r >>= f) Q := by
  obtain ⟨acts, outcome⟩ := r
  obtain ⟨held, hexec, hout⟩ := hr
  cases outcome with
  | returned a =>
    obtain ⟨held', hexec', hout'⟩ := hf a rfl
    cases hout
    refine ⟨held', ?_, hout'⟩
    change exec (hold isLock) (acts ++ (f a).acts) H = some held'
    rw [exec_append, hexec]
    exact hexec'
  | stopped => exact ⟨held, hexec, hout⟩
  | waiting => exact ⟨held, hexec, trivial⟩

theorem bind {r : Run κ α} {f : α → Run κ β} (hr : Triple isLock H r M)
    (hf : ∀ a, Triple isLock M (f a) Q) : Triple isLock H (r >>= f) Q :=
  bind_of_returned hr fun a _ => hf a

theorem foldlM {σ ι : Type} {f : σ → ι → Run κ σ} (hf : ∀ s i, Triple isLock H (f s i) H)
    (is : List ι) (s : σ) : Triple isLock H (is.foldlM f s) H := by
  induction is generalizing s with
  | nil => exact pure s
  | cons i is ih =>
    rw [List.foldlM_cons]
    exact bind (hf s i) ih

theorem enable {f : Unit → Run κ β} (hl : isLock k) (hk : k ∉ H)
    (hf : Triple isLock (insert k H) (f ()) Q) : Triple isLock H (Run.enable k >>= f) Q := by
  have henable : Triple isLock H (Run.enable k) (insert k H) := by
    refine ⟨insert k H, ?_, rfl⟩
    simp [Run.enable, exec_cons, hold, hl, hk]
  exact bind henable fun _ => hf

theorem disable {f : Unit → Run κ β} (hl : isLock k) (hk : k ∉ H) (hf : Triple isLock H (f ()) Q) :
    Triple isLock (insert k H) (Run.disable k >>= f) Q := by
  have hdisable : Triple isLock (insert k H) (Run.disable k) H := by
    refine ⟨H, ?_, rfl⟩
    simp [Run.disable, exec_cons, hold, hl, hk]
  exact bind hdisable fun _ => hf

/-- A semaphore that is no lock may be waited for and posted at any time. -/
theorem signal {f : Unit → Run κ β} (hl : ¬ isLock k) (hf : Triple isLock H (f ()) Q) :
    Triple isLock H (Run.enable k >>= f) Q ∧ Triple isLock H (Run.disable k >>= f) Q := by
  have henable : Triple isLock H (Run.enable k) H :=
    ⟨H, by simp [Run.enable, exec_cons, hold, hl], rfl⟩
  have hdisable : Triple isLock H (Run.disable k) H :=
    ⟨H, by simp [Run.disable, exec_cons, hold, hl], rfl⟩
  exact ⟨bind henable fun _ => hf, bind hdisable fun _ => hf⟩

end Triple

omit [DecidablePred isLock] in
theorem Balanced.congr {r : Run κ α} {r' : Run κ β} (h : Balanced isLock r)
    (hacts : r.acts = r'.acts) (hout : r.outcome = .waiting → r'.outcome = .waiting) :
    Balanced isLock r' := by
  constructor
  · rw [← hacts]
    exact h.fresh
  · intro hw
    rw [← hacts]
    exact h.released fun e => hw (hout e)

omit [DecidablePred isLock] in
theorem balanced_map (f : α → β) (r : Run κ α) : Balanced isLock (f <$> r) ↔ Balanced isLock r := by
  obtain ⟨acts, outcome⟩ := r
  cases outcome with
  | returned a =>
    have hacts : acts ++ [] = acts := List.append_nil acts
    exact ⟨fun h => h.congr hacts nofun, fun h => h.congr hacts.symm nofun⟩
  | stopped => exact ⟨fun h => h.congr rfl nofun, fun h => h.congr rfl nofun⟩
  | waiting => exact ⟨fun h => h.congr rfl fun _ => rfl, fun h => h.congr rfl fun _ => rfl⟩

section Counts

theorem count_of_hold {a : Act κ} (h : hold isLock H a = some M) (hl : isLock k) :
    [a].count (.enable k) + (if k ∈ H then 1 else 0) =
      [a].count (.disable k) + (if k ∈ M then 1 else 0) := by
  cases a with
  | enable j =>
    by_cases hj : isLock j
    · rw [hold, if_pos hj, Option.ite_none_left_eq_some, Option.some.injEq] at h
      obtain ⟨hmem, rfl⟩ := h
      by_cases hjk : j = k
      · subst hjk
        simp [hmem]
      · simp [hjk, Ne.symm hjk]
    · rw [hold, if_neg hj, Option.some.injEq] at h
      have hjk : j ≠ k := fun e => hj (e ▸ hl)
      simp [h, hjk]
  | disable j =>
    by_cases hj : isLock j
    · rw [hold, if_pos hj, Option.ite_none_right_eq_some, Option.some.injEq] at h
      obtain ⟨hmem, rfl⟩ := h
      by_cases hjk : j = k
      · subst hjk
        simp [hmem]
      · simp [hjk, Ne.symm hjk]
    · rw [hold, if_neg hj, Option.some.injEq] at h
      have hjk : j ≠ k := fun e => hj (e ▸ hl)
      simp [h, hjk]

/-- Held locks are those taken once more than given back. -/
theorem count_of_exec {acts : List (Act κ)} (h : exec (hold isLock) acts H = some M) (hl : isLock k) :
    acts.count (.enable k) + (if k ∈ H then 1 else 0) =
      acts.count (.disable k) + (if k ∈ M then 1 else 0) := by
  induction acts generalizing H with
  | nil =>
    cases h
    simp
  | cons a acts ih =>
    rw [exec_cons] at h
    obtain ⟨H', ha, h⟩ := Option.bind_eq_some_iff.mp h
    have hstep := count_of_hold ha hl
    have hacts := ih h
    rw [← List.singleton_append, List.count_append, List.count_append]
    omega

theorem Triple.balanced {r : Run κ α} (h : Triple isLock ∅ r ∅) : Balanced isLock r := by
  obtain ⟨held, hexec, hout⟩ := h
  constructor
  · intro k hl pre hpre
    obtain ⟨rest, hrest⟩ := hpre
    rw [← hrest, List.append_assoc, exec_append] at hexec
    obtain ⟨M, hpre, hnext⟩ := Option.bind_eq_some_iff.mp hexec
    have hk : k ∉ M := by
      intro hk
      rw [List.singleton_append, exec_cons] at hnext
      simp [hold, hl, hk] at hnext
    have hc := count_of_exec hpre hl
    simpa [hk] using hc
  · intro hw k hl
    have hempty : held = ∅ := by
      cases ho : r.outcome with
      | waiting => exact absurd ho hw
      | returned a => simpa [ho] using hout
      | stopped => simpa [ho] using hout
    have hc := count_of_exec hexec hl
    simpa [hempty] using hc.symm

end Counts

end LockRuns
