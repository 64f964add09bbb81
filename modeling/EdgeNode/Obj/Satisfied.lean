import EdgeNode.Obj.Hysteresis

/-! The condition of an event as a predicate, `FTE_EVENT_isSatisfied`, beside the one that
`FTE_EVENT_check` evaluates. -/

namespace EdgeNode.Obj

open Hysteresis

/-- `FTE_EVENT_isSatisfied`, with `bResult` where it is written. -/
def isSatisfied (cfg : EventConfig) (nValue : Int32) : Ret × Option Bool :=
  match cfg.xCondition with
  | .above => (retOk, some (cfg.xLimit.nValue ≥ nValue))
  | .below => (retOk, some (cfg.xLimit.nValue ≤ nValue))
  | .inside => (retOk, some (cfg.xRange.nUpper ≥ nValue && cfg.xRange.nLower ≤ nValue))
  | .outside => (retOk, some (cfg.xRange.nUpper < nValue && cfg.xRange.nLower > nValue))
  | _ => (retInvalidParameter, none)

/-- A condition with limits in order, on a value that is none of them. -/
def EventConfig.Apart (cfg : EventConfig) (nValue : Int32) : Prop :=
  match cfg.xCondition with
  | .above | .below => nValue ≠ cfg.xLimit.nValue
  | .inside | .outside =>
    cfg.xRange.nLower ≤ cfg.xRange.nUpper ∧ nValue ≠ cfg.xRange.nLower ∧ nValue ≠ cfg.xRange.nUpper
  | _ => False

/-- Where the two readings are the same. An event that is not enabled never occurs. -/
def EventConfig.ReadsAlike (cfg : EventConfig) (nValue : Int32) : Prop :=
  match cfg.xCondition with
  | .above => cfg.enabled = false ∧ cfg.xLimit.nValue < nValue
  | .below => cfg.enabled = false ∧ nValue < cfg.xLimit.nValue
  | .inside => cfg.enabled = true ∨ nValue < cfg.xRange.nLower ∨ cfg.xRange.nUpper < nValue
  | .outside => cfg.enabled = false ∨ cfg.xRange.nLower < nValue ∧ nValue < cfg.xRange.nUpper
  | _ => False

instance : ∀ (cfg : EventConfig) (nValue : Int32), Decidable (cfg.Apart nValue)
  | ⟨_, .above, _, _, _⟩, _ | ⟨_, .below, _, _, _⟩, _ => inferInstanceAs (Decidable (_ ≠ _))
  | ⟨_, .inside, _, _, _⟩, _ | ⟨_, .outside, _, _, _⟩, _ => inferInstanceAs (Decidable (_ ∧ _ ∧ _))
  | ⟨_, .none, _, _, _⟩, _ | ⟨_, .interval, _, _, _⟩, _ | ⟨_, .time, _, _, _⟩, _
  | ⟨_, .changed, _, _, _⟩, _ => .isFalse id

section Readings

variable {cfg : EventConfig} {nValue : Int32}

theorem int32_ne_iff {v w : Int32} : v ≠ w ↔ v.toInt ≠ w.toInt := not_congr Int32.toInt_inj.symm

theorem crossed_iff_enter : cfg.crossed false nValue = true ↔ cfg.automaton.enter nValue.toInt := by
  unfold EventConfig.crossed EventConfig.automaton
  cases cfg.xCondition <;> simp [Int32.le_iff_toInt_le, and_comm]

/-- An event occurs at a check when it is enabled and its condition is entered. -/
theorem check_occurs {τ : Type} (diffMilliseconds : τ → τ → Int32) (now : τ) {e : EventState τ}
    {value : Value τ} (he : e.bOccurred = false) (h : cfg.Apart value.nValue) :
    (check diffMilliseconds now cfg e value).2.1.bOccurred = true ↔
      cfg.enabled = true ∧ cfg.automaton.enter value.nValue.toInt := by
  have hheld : e.held diffMilliseconds now cfg.ulHoldTime = false := by simp [EventState.held, he]
  rw [← crossed_iff_enter, check, hheld, he]
  unfold EventConfig.Apart at h
  cases hen : cfg.enabled with
  | false => simp [he]
  | true =>
    cases hcond : cfg.xCondition <;> simp only [hcond] at h <;>
      cases hcross : cfg.crossed false value.nValue <;> simp [EventState.change, he]

/-- What the predicate reads where the values of the event's condition start: the wrong side of a
limit, and both sides of a range at once. -/
theorem isSatisfied_iff (h : cfg.Apart nValue) :
    (isSatisfied cfg nValue).2 = some true ↔
      match cfg.xCondition with
      | .above => nValue.toInt < cfg.xLimit.nValue.toInt
      | .below => cfg.xLimit.nValue.toInt < nValue.toInt
      | .inside => cfg.xRange.nLower.toInt < nValue.toInt ∧ nValue.toInt < cfg.xRange.nUpper.toInt
      | _ => False := by
  unfold EventConfig.Apart at h
  unfold isSatisfied
  cases hcond : cfg.xCondition <;> simp only [hcond, int32_ne_iff, Int32.le_iff_toInt_le] at h ⊢ <;>
    simp only [Option.some.injEq, decide_eq_true_eq, Bool.and_eq_true, gt_iff_lt,
      Int32.lt_iff_toInt_lt, iff_false] <;> omega

end Readings

/-- The two readings of a condition agree on a value exactly for an `INSIDE` event, and for an
`OUTSIDE` event strictly between its limits; of an event that is not enabled, exactly where the
predicate is false. -/
theorem isSatisfied_iff_check {τ : Type} (diffMilliseconds : τ → τ → Int32) (now : τ)
    (cfg : EventConfig) (e : EventState τ) (value : Value τ) (he : e.bOccurred = false)
    (h : cfg.Apart value.nValue) :
    ((isSatisfied cfg value.nValue).2 = some true ↔
      (check diffMilliseconds now cfg e value).2.1.bOccurred = true) ↔
    cfg.ReadsAlike value.nValue := by
  rw [check_occurs diffMilliseconds now he h, isSatisfied_iff h]
  unfold EventConfig.Apart at h
  unfold EventConfig.ReadsAlike EventConfig.automaton
  cases hen : cfg.enabled <;> cases hcond : cfg.xCondition <;>
    simp only [hcond, int32_ne_iff, Int32.le_iff_toInt_le] at h <;>
    simp only [Int32.lt_iff_toInt_lt, true_and, false_and, true_or, false_or, reduceCtorEq,
      iff_false, false_iff, iff_true] <;> omega

section Runs

/-- An enabled event on the range from -10 to 10. -/
def inRange (xCondition : Condition) : EventConfig := ⟨1, xCondition, ⟨10, 0⟩, ⟨10, -10, 0⟩, 0⟩

def notOccurred : EventState Int32 := ⟨false, false, 0⟩

def valueOf (nValue : Int32) : Value Int32 := ⟨.temperature, true, true, 0, nValue, 0⟩

/-- A value of 20 makes an event above 10 occur, and the predicate is false for it. -/
theorem isSatisfied_above :
    (inRange .above).Apart (valueOf 20).nValue ∧
      ¬ ((isSatisfied (inRange .above) (valueOf 20).nValue).2 = some true ↔
        (check (· - ·) 0 (inRange .above) notOccurred (valueOf 20)).2.1.bOccurred = true) := by
  decide

theorem isSatisfied_inside :
    (isSatisfied (inRange .inside) (valueOf 5).nValue).2 = some true ↔
      (check (· - ·) 0 (inRange .inside) notOccurred (valueOf 5)).2.1.bOccurred = true :=
  (isSatisfied_iff_check _ _ _ _ _ rfl (by decide)).mpr (.inl (by decide))

end Runs

end EdgeNode.Obj
