import Mathlib.Data.Set.Basic
import Mathlib.Logic.Function.Basic
import Mathlib.Tactic.Common

/-! Pending timers that owners know by handles: each owner has slots, and in each the handle of the
last timer it started there, or zero. -/

namespace Handles

variable {ω κ : Type} [DecidableEq ω] [DecidableEq κ]

/-- The pending timers with the owner and the slot they were started for, the handles, and whether a
handle was cancelled that is that of no pending timer of its slot. -/
structure Timers (ω κ : Type) where
  pending : Nat → Option (ω × κ)
  handle : ω → κ → Nat
  stray : Bool

namespace Timers

def setHandle (t : Timers ω κ) (o : ω) (k : κ) (id : Nat) : ω → κ → Nat :=
  Function.update t.handle o (Function.update (t.handle o) k id)

/-- A timer is started and its handle kept; zero is that of a timer that could not be started. There
is no such step with the handle of a pending timer. -/
def start (t : Timers ω κ) (o : ω) (k : κ) (id : Nat) : Option (Timers ω κ) :=
  if id = 0 then some { t with handle := t.setHandle o k 0 }
  else if t.pending id = none then
    some { t with
      pending := Function.update t.pending id (some (o, k)), handle := t.setHandle o k id }
  else none

/-- The timer of a slot is cancelled and its handle cleared. -/
def cancel (t : Timers ω κ) (o : ω) (k : κ) : Timers ω κ :=
  if t.handle o k = 0 then t
  else
    { pending := Function.update t.pending (t.handle o k) none
      handle := t.setHandle o k 0
      stray := t.stray || decide (t.pending (t.handle o k) ≠ some (o, k)) }

def clear (t : Timers ω κ) (o : ω) (k : κ) : Timers ω κ := { t with handle := t.setHandle o k 0 }

/-- A timer that fires once is pending no more. -/
def expire (t : Timers ω κ) (id : Nat) : Timers ω κ :=
  { t with pending := Function.update t.pending id none }

/-- Each pending timer is known by its slot. -/
def Tracked (t : Timers ω κ) : Prop :=
  ∀ id o k, t.pending id = some (o, k) → id ≠ 0 ∧ t.handle o k = id

def Pends (t : Timers ω κ) (o : ω) (k : κ) : Prop := t.pending (t.handle o k) = some (o, k)

instance (t : Timers ω κ) (o : ω) (k : κ) : Decidable (t.Pends o k) :=
  inferInstanceAs (Decidable (_ = _))

/-- The handle of a slot is zero or that of its pending timer. -/
def Current (t : Timers ω κ) (o : ω) (k : κ) : Prop := t.handle o k = 0 ∨ t.Pends o k

instance (t : Timers ω κ) (o : ω) (k : κ) : Decidable (t.Current o k) :=
  inferInstanceAs (Decidable (_ ∨ _))

variable {t t' t'' : Timers ω κ} {o p : ω} {k l : κ} {ks ls : Set κ} {id : Nat}

section Tracking

omit [DecidableEq ω] [DecidableEq κ]

theorem Tracked.not_pends (ht : t.Tracked) (h : t.handle o k = 0) : ¬ t.Pends o k :=
  fun hp => (ht _ _ _ hp).1 h

theorem Tracked.pending_ne (ht : t.Tracked) (h : ¬ t.Pends o k) (id : Nat) :
    t.pending id ≠ some (o, k) := by
  intro hp
  obtain ⟨-, rfl⟩ := ht _ _ _ hp
  exact h hp

theorem Current.handle_eq_zero (hc : t.Current o k) (h : ¬ t.Pends o k) : t.handle o k = 0 :=
  hc.resolve_right h

/-- What a step of the owner `o` on its slots `ks` keeps: pending timers are known as before, no stray
cancel, and the other slots stay as they are. -/
structure Keeps (t t' : Timers ω κ) (o : ω) (ks : Set κ) : Prop where
  tracked : t'.Tracked
  stray : t'.stray = t.stray
  handle : ∀ p l, p ≠ o ∨ l ∉ ks → t'.handle p l = t.handle p l
  pends : ∀ p l, p ≠ o ∨ l ∉ ks → (t'.Pends p l ↔ t.Pends p l)

theorem Keeps.refl (ht : t.Tracked) (o : ω) (ks : Set κ) : Keeps t t o ks :=
  ⟨ht, rfl, fun _ _ _ => rfl, fun _ _ _ => Iff.rfl⟩

theorem Keeps.trans (h : Keeps t t' o ks) (h' : Keeps t' t'' o ls) : Keeps t t'' o (ks ∪ ls) where
  tracked := h'.tracked
  stray := h'.stray.trans h.stray
  handle p l hne := (h'.handle p l (hne.imp_right fun hl hm => hl (.inr hm))).trans
    (h.handle p l (hne.imp_right fun hl hm => hl (.inl hm)))
  pends p l hne := (h'.pends p l (hne.imp_right fun hl hm => hl (.inr hm))).trans
    (h.pends p l (hne.imp_right fun hl hm => hl (.inl hm)))

theorem Keeps.mono (h : Keeps t t' o ks) (hs : ks ⊆ ls) : Keeps t t' o ls where
  tracked := h.tracked
  stray := h.stray
  handle p l hne := h.handle p l (hne.imp_right fun hl hm => hl (hs hm))
  pends p l hne := h.pends p l (hne.imp_right fun hl hm => hl (hs hm))

theorem Keeps.current (h : Keeps t t' o ks) (hne : p ≠ o ∨ l ∉ ks) :
    t'.Current p l ↔ t.Current p l := by
  rw [Current, Current, h.handle p l hne, h.pends p l hne]

end Tracking

@[simp] theorem setHandle_self : t.setHandle o k id o k = id := by simp [setHandle]

theorem setHandle_of_ne (h : p ≠ o ∨ l ≠ k) : t.setHandle o k id p l = t.handle p l := by
  by_cases hp : p = o
  · subst hp
    have hl : l ≠ k := h.resolve_left fun hne => hne rfl
    simp [setHandle, hl]
  · simp [setHandle, hp]

omit [DecidableEq ω] [DecidableEq κ] in
theorem some_ne_some (hne : p ≠ o ∨ l ≠ k) : some (o, k) ≠ some (p, l) := by
  intro heq
  cases heq
  exact hne.elim (fun h => h rfl) fun h => h rfl

/-- The pending timers of other slots are known as before. -/
theorem setHandle_of_pending (ht : t.Tracked) (hidle : ¬ t.Pends o k) {i : Nat}
    (h : t.pending i = some (p, l)) : i ≠ 0 ∧ t.setHandle o k id p l = i := by
  obtain ⟨hne, hh⟩ := ht i p l h
  refine ⟨hne, (setHandle_of_ne ?_).trans hh⟩
  by_contra hsame
  rw [not_or, not_not, not_not] at hsame
  obtain ⟨rfl, rfl⟩ := hsame
  exact ht.pending_ne hidle i h

/-- A start into a slot without a pending timer. -/
theorem Tracked.start (ht : t.Tracked) (hidle : ¬ t.Pends o k) (h : t.start o k id = some t') :
    Keeps t t' o {k} ∧ t'.handle o k = id ∧ t'.Current o k := by
  rw [Timers.start] at h
  split at h
  next hz =>
    cases h
    refine ⟨⟨?_, rfl, fun p l => setHandle_of_ne, fun p l hne => ?_⟩, by simp [hz], .inl (by simp)⟩
    · exact fun i p l => setHandle_of_pending ht hidle
    · rw [Pends, Pends]
      dsimp only
      rw [setHandle_of_ne hne]
  next hz =>
    split at h
    next hfree =>
      cases h
      refine ⟨⟨?_, rfl, fun p l => setHandle_of_ne, fun p l hne => ?_⟩, by simp, .inr (by simp [Pends])⟩
      · intro i p l hp
        dsimp only at hp ⊢
        by_cases hi : i = id
        · subst hi
          rw [Function.update_self, Option.some.injEq, Prod.mk.injEq] at hp
          obtain ⟨rfl, rfl⟩ := hp
          exact ⟨hz, setHandle_self⟩
        · exact setHandle_of_pending ht hidle (by rwa [Function.update_of_ne hi] at hp)
      · rw [Pends, Pends]
        dsimp only
        rw [setHandle_of_ne hne]
        by_cases hi : t.handle p l = id
        · rw [hi, Function.update_self, hfree]
          simp [some_ne_some hne]
        · rw [Function.update_of_ne hi]
    next => cases h

/-- The slot's own timer is cancelled, or there is nothing to cancel. -/
theorem Tracked.cancel (ht : t.Tracked) (hc : t.Current o k) :
    Keeps t (t.cancel o k) o {k} ∧ (t.cancel o k).handle o k = 0 := by
  rw [Timers.cancel]
  split
  next hz => exact ⟨.refl ht o _, hz⟩
  next hz =>
    have hp : t.Pends o k := hc.resolve_left hz
    refine ⟨⟨?_, ?_, fun p l => setHandle_of_ne, fun p l hne => ?_⟩, by simp⟩
    · intro i p l hpend
      dsimp only at hpend
      by_cases hi : i = t.handle o k
      · rw [hi, Function.update_self] at hpend
        cases hpend
      · rw [Function.update_of_ne hi] at hpend
        obtain ⟨hne, hh⟩ := ht i p l hpend
        refine ⟨hne, (setHandle_of_ne ?_).trans hh⟩
        by_contra hsame
        rw [not_or, not_not, not_not] at hsame
        obtain ⟨rfl, rfl⟩ := hsame
        exact hi hh.symm
    · rw [Pends] at hp
      simp [hp]
    · rw [Pends, Pends]
      dsimp only
      rw [setHandle_of_ne hne]
      by_cases hi : t.handle p l = t.handle o k
      · rw [hi, Function.update_self, hp]
        simp [some_ne_some hne]
      · rw [Function.update_of_ne hi]

theorem Tracked.clear (ht : t.Tracked) (hidle : ¬ t.Pends o k) :
    Keeps t (t.clear o k) o {k} ∧ (t.clear o k).handle o k = 0 := by
  refine ⟨⟨fun i p l => setHandle_of_pending ht hidle, rfl, fun p l => setHandle_of_ne,
    fun p l hne => ?_⟩, setHandle_self⟩
  rw [Pends, Pends, Timers.clear]
  dsimp only
  rw [setHandle_of_ne hne]

omit [DecidableEq ω] [DecidableEq κ] in
/-- A timer that fired is pending no more, and its slot still has the handle. -/
theorem Tracked.expire (ht : t.Tracked) (hid : t.pending id = some (o, k)) :
    Keeps t (t.expire id) o {k} ∧ ¬ (t.expire id).Pends o k := by
  obtain ⟨-, hh⟩ := ht id o k hid
  refine ⟨⟨?_, rfl, fun _ _ _ => rfl, fun p l hne => ?_⟩, ?_⟩
  · intro i p l hp
    rw [Timers.expire] at hp
    dsimp only at hp
    by_cases hi : i = id
    · rw [hi, Function.update_self] at hp
      cases hp
    · exact ht i p l (by rwa [Function.update_of_ne hi] at hp)
  · rw [Pends, Pends, Timers.expire]
    dsimp only
    by_cases hi : t.handle p l = id
    · rw [hi, Function.update_self, hid]
      simp [some_ne_some hne]
    · rw [Function.update_of_ne hi]
  · rw [Pends, Timers.expire]
    dsimp only
    rw [hh, Function.update_self]
    exact nofun

end Timers

end Handles
