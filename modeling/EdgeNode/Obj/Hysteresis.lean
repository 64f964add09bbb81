import EdgeNode.Lib.Runs
import EdgeNode.Lib.Words
import EdgeNode.Obj.Event

/-! When the occurred state of an event follows the hysteresis automaton of its condition. -/

namespace Hysteresis

/-- A two-state automaton: on at a value of `enter`, off at a value of `leave`. -/
structure Automaton (α : Type) where
  enter : α → Prop
  leave : α → Prop
  decEnter : DecidablePred enter
  decLeave : DecidablePred leave

def Automaton.next {α : Type} (m : Automaton α) (on : Bool) (v : α) : Bool :=
  letI := m.decEnter
  letI := m.decLeave
  if on then !decide (m.leave v) else decide (m.enter v)

end Hysteresis

namespace EdgeNode.Obj

open Runs Words Hysteresis

/-- The automaton of a condition: its limits and its threshold as integers. -/
def EventConfig.automaton (cfg : EventConfig) : Automaton Int :=
  let limit := cfg.xLimit.nValue.toInt
  let gap : Int := cfg.xLimit.ulThreshold.toNat
  let upper := cfg.xRange.nUpper.toInt
  let lower := cfg.xRange.nLower.toInt
  let margin : Int := cfg.xRange.ulThreshold.toNat
  match cfg.xCondition with
  | .above => ⟨(limit ≤ ·), (· < limit - gap), inferInstance, inferInstance⟩
  | .below => ⟨(· ≤ limit), (limit + gap < ·), inferInstance, inferInstance⟩
  | .inside => ⟨fun v => lower ≤ v ∧ v ≤ upper, fun v => v < lower - margin ∨ upper + margin < v,
      inferInstance, inferInstance⟩
  | .outside => ⟨fun v => upper ≤ v ∨ v ≤ lower, fun v => lower + margin < v ∧ v < upper - margin,
      inferInstance, inferInstance⟩
  | _ => ⟨fun _ => False, fun _ => False, inferInstance, inferInstance⟩

/-- The sums that the condition forms are signed words. -/
def EventConfig.Fits (cfg : EventConfig) : Prop :=
  let limit := cfg.xLimit.nValue.toInt
  let gap : Int := cfg.xLimit.ulThreshold.toNat
  let upper := cfg.xRange.nUpper.toInt
  let lower := cfg.xRange.nLower.toInt
  let margin : Int := cfg.xRange.ulThreshold.toNat
  match cfg.xCondition with
  | .above => Signed (limit - gap)
  | .below => Signed (limit + gap)
  | .inside => Signed (lower - margin) ∧ Signed (upper + margin)
  | .outside => Signed (lower + margin) ∧ Signed (upper - margin)
  | _ => False

/-- An enabled `ABOVE`, `BELOW`, `INSIDE` or `OUTSIDE` event without a hold time. -/
structure EventConfig.Hysteretic (cfg : EventConfig) : Prop where
  enabled : cfg.enabled = true
  hold : cfg.ulHoldTime = 0
  fits : cfg.Fits

/-- The signs with which the comparisons of a release come out right: the value's against that of
the one bound; where the two bounds of a range differ in sign, the place of the value. -/
def EventConfig.SignsAgree (cfg : EventConfig) (v : Int) : Prop :=
  let limit := cfg.xLimit.nValue.toInt
  let gap : Int := cfg.xLimit.ulThreshold.toNat
  let upper := cfg.xRange.nUpper.toInt
  let lower := cfg.xRange.nLower.toInt
  let margin : Int := cfg.xRange.ulThreshold.toNat
  match cfg.xCondition with
  | .above => v < 0 ↔ limit - gap < 0
  | .below => v < 0 ↔ limit + gap < 0
  | .inside =>
    (lower - margin < 0 ↔ upper + margin < 0) ∨
      (lower - margin < 0 ∧ (v < lower - margin ∨ upper + margin < v)) ∨
      (upper + margin < 0 ∧ upper + margin < v ∧ v < lower - margin)
  | .outside =>
    (lower + margin < 0 ↔ upper - margin < 0) ∨
      (lower + margin < 0 ∧ (v ≤ lower + margin ∨ upper - margin ≤ v)) ∨
      (upper - margin < 0 ∧ upper - margin ≤ v ∧ v ≤ lower + margin)
  | _ => True

variable {cfg : EventConfig}

theorem crossed_of_not_occurred (h : cfg.Fits) (v : Int32) :
    cfg.crossed false v = cfg.automaton.next false v.toInt := by
  unfold EventConfig.crossed EventConfig.automaton
  cases hc : cfg.xCondition <;>
    simp_all [EventConfig.Fits, Automaton.next, Int32.le_iff_toInt_le, and_comm, Bool.decide_and, Bool.decide_or]

/-- A release is compared right exactly where the signs agree. -/
theorem crossed_of_occurred (h : cfg.Fits) (v : Int32) :
    (!cfg.crossed true v) = cfg.automaton.next true v.toInt ↔ cfg.SignsAgree v.toInt := by
  have hv := signed_toInt v
  have hword := stands_toUInt32 v
  have hgap := stands_toNat cfg.xLimit.ulThreshold
  have hmargin := stands_toNat cfg.xRange.ulThreshold
  have hlimit := stands_toUInt32 cfg.xLimit.nValue
  have hupper := stands_toUInt32 cfg.xRange.nUpper
  have hlower := stands_toUInt32 cfg.xRange.nLower
  unfold EventConfig.Fits at h
  unfold EventConfig.crossed EventConfig.automaton EventConfig.SignsAgree
  cases hc : cfg.xCondition <;> simp only [hc] at h
  case above =>
    have hlt := hword.lt_iff (hlimit.sub hgap) hv h
    simp only [Automaton.next, if_true, Bool.not_eq_eq_eq_not, Bool.not_not, decide_eq_decide, hlt]
    omega
  case below =>
    have hlt := (hlimit.add hgap).lt_iff hword h hv
    simp only [Automaton.next, if_true, Bool.not_eq_eq_eq_not, Bool.not_not, decide_eq_decide, hlt]
    omega
  case inside =>
    have hlo := hword.lt_iff (hlower.sub hmargin) hv h.1
    have hup := (hupper.add hmargin).lt_iff hword h.2 hv
    simp only [Automaton.next, if_true, Bool.not_eq_eq_eq_not, Bool.not_not, ← Bool.decide_or,
      decide_eq_decide, gt_iff_lt, hlo, hup]
    omega
  case outside =>
    have hlo := (hlower.add hmargin).lt_iff hword h.1 hv
    have hup := hword.lt_iff (hupper.sub hmargin) hv h.2
    simp only [Automaton.next, if_true, Bool.not_eq_eq_eq_not, Bool.not_not, ← Bool.decide_and,
      decide_eq_decide, gt_iff_lt, hlo, hup]
    omega

/-- An event under watch, with the state of its automaton as a ghost. -/
structure Watch (τ : Type) where
  event : EventState τ
  occurred : Bool

structure Sample (τ : Type) where
  xCurrentTime : τ
  value : Value τ

section Watch

variable {τ : Type} (cfg) (diffMilliseconds : τ → τ → Int32)

def watch (s : Watch τ) (a : Sample τ) : Option (Watch τ) :=
  some {
    event := (check diffMilliseconds a.xCurrentTime cfg s.event a.value).2.1
    occurred := cfg.automaton.next s.occurred a.value.nValue.toInt }

/-- The checks that keep to the automaton. Of an event that has occurred, one that comes after the
time of the occurrence compares with signs that agree, and one that does not come after it finds no
value that would release the event. -/
def Decided (s : Watch τ) (a : Sample τ) : Prop :=
  s.event.bOccurred = true →
    if 0 < (diffMilliseconds a.xCurrentTime s.event.xTimeStamp).toInt then
      cfg.SignsAgree a.value.nValue.toInt
    else ¬ cfg.automaton.leave a.value.nValue.toInt

variable {cfg diffMilliseconds}

theorem check_occurred (h : cfg.Hysteretic) (now : τ) (e : EventState τ) (value : Value τ) :
    (check diffMilliseconds now cfg e value).2.1.bOccurred =
      if e.bOccurred = true ∧ (diffMilliseconds now e.xTimeStamp).toInt ≤ 0 then true
      else e.bOccurred ^^ cfg.crossed e.bOccurred value.nValue := by
  have hen := h.enabled
  have hf := h.fits
  have hheld : e.held diffMilliseconds now cfg.ulHoldTime =
      (e.bOccurred && decide ((diffMilliseconds now e.xTimeStamp).toInt ≤ 0)) := by
    simp [EventState.held, h.hold]
  unfold EventConfig.Fits at hf
  unfold check
  rw [hheld]
  cases hc : cfg.xCondition <;> simp only [hc] at hf <;>
    cases hb : e.bOccurred <;> cases hx : cfg.crossed e.bOccurred value.nValue <;>
    simp_all [EventState.change] <;> split <;> simp_all

/-- One check agrees with one step of the automaton exactly where it is decided. -/
theorem watch_agrees_iff (h : cfg.Hysteretic) {s s' : Watch τ} {a : Sample τ}
    (hs : s.event.bOccurred = s.occurred) (hw : watch cfg diffMilliseconds s a = some s') :
    s'.event.bOccurred = s'.occurred ↔ Decided cfg diffMilliseconds s a := by
  cases hw
  dsimp only
  rw [check_occurred h, ← hs]
  cases hb : s.event.bOccurred with
  | false =>
    simp [Decided, hb, crossed_of_not_occurred h.fits]
  | true =>
    have hsigns := crossed_of_occurred h.fits a.value.nValue
    by_cases hd : 0 < (diffMilliseconds a.xCurrentTime s.event.xTimeStamp).toInt
    · simp [Decided, hb, hd, ← hsigns, Int.not_le.mpr hd]
    · simp [Decided, hb, hd, Int.not_lt.mp hd, Automaton.next]

/-- The event follows its automaton through a run exactly when every check of it is decided. -/
theorem occurred_follows_iff (h : cfg.Hysteretic) {s : Watch τ} (hs : s.event.bOccurred = s.occurred)
    (samples : List (Sample τ)) :
    (∀ u, Visits (watch cfg diffMilliseconds) s samples u → u.event.bOccurred = u.occurred) ↔
      ∀ u a, Takes (watch cfg diffMilliseconds) s samples u a → Decided cfg diffMilliseconds u a := by
  have htotal : ∀ u a, ∃ v, watch cfg diffMilliseconds u a = some v := fun _ _ => ⟨_, rfl⟩
  obtain ⟨t, ht⟩ := exec_total _ htotal samples s
  have hstep : ∀ u a v, u.event.bOccurred = u.occurred → watch cfg diffMilliseconds u a = some v →
      (v.event.bOccurred = v.occurred ↔ Decided cfg diffMilliseconds u a) :=
    fun _ _ _ hu hv => watch_agrees_iff h hu hv
  exact visits_iff_takes_of_step hs hstep ht

end Watch

section Runs

instance (cfg : EventConfig) (v : Int) : Decidable (cfg.SignsAgree v) := by
  unfold EventConfig.SignsAgree
  dsimp only
  split <;> infer_instance

instance (cfg : EventConfig) (v : Int) : Decidable (cfg.automaton.leave v) := cfg.automaton.decLeave v

instance {τ : Type} (cfg : EventConfig) (diff : τ → τ → Int32) (s : Watch τ) :
    DecidablePred (Decided cfg diff s) := fun a =>
  inferInstanceAs (Decidable (s.event.bOccurred = true →
    if 0 < (diff a.xCurrentTime s.event.xTimeStamp).toInt then cfg.SignsAgree a.value.nValue.toInt
    else ¬ cfg.automaton.leave a.value.nValue.toInt))

/-- An `ABOVE` event in hundredths of a degree, with a threshold of five degrees. -/
def aboveFrom (nValue : Int32) : EventConfig := ⟨1, .above, ⟨nValue, 500⟩, ⟨0, 0, 0⟩, 0⟩

theorem hysteretic_aboveFrom {nValue : Int32} (h : Signed (nValue.toInt - 500)) :
    (aboveFrom nValue).Hysteretic :=
  ⟨by simp [EventConfig.enabled, aboveFrom, eventTypeEnable], rfl, h⟩

def unwatched : Watch Int32 := ⟨⟨false, false, 0⟩, false⟩

/-- A check ten milliseconds after the value was taken. -/
def sampleAt (t nValue : Int32) : Sample Int32 := ⟨t + 10, ⟨.temperature, true, true, 0, nValue, t⟩⟩

/-- Above zero, with a release below minus five degrees: a fall to half a degree releases. -/
theorem small_fall_releases :
    (aboveFrom 0).Hysteretic ∧
      ¬ ∀ u, Visits (watch (aboveFrom 0) (· - ·)) unwatched [sampleAt 0 100, sampleAt 1000 50] u →
        u.event.bOccurred = u.occurred := by
  refine ⟨hysteretic_aboveFrom (by decide), fun h => ?_⟩
  have hfall := h _ ⟨_, List.prefix_rfl, rfl⟩
  revert hfall
  decide

theorem follows_above_twenty :
    ∃ u, exec (watch (aboveFrom 2000) (· - ·))
        [sampleAt 0 2100, sampleAt 1000 1600, sampleAt 2000 1400] unwatched = some u ∧
      u.event.bChanged = true ∧ u.event.bOccurred = u.occurred := by
  obtain ⟨u, hu, hc⟩ : ∃ u, exec (watch (aboveFrom 2000) (· - ·))
      [sampleAt 0 2100, sampleAt 1000 1600, sampleAt 2000 1400] unwatched = some u ∧
        u.event.bChanged = true := ⟨_, rfl, by decide⟩
  exact ⟨u, hu, hc, (occurred_follows_iff (hysteretic_aboveFrom (by decide)) rfl _).mpr
    (takes_of_along (by decide)) u ⟨_, List.prefix_rfl, hu⟩⟩

end Runs

end EdgeNode.Obj
