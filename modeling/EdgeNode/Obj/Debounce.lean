import EdgeNode.Lib.Words
import EdgeNode.Obj.Changes
import EdgeNode.Sys.Ticks

/-! A digital input between its interrupt, the unlocking of that interrupt by the timer task and
`FTE_DI_update`. The interrupt, that of a native port, comes only while it is enabled: it disables
itself, and is enabled again when the last sample is 200 ms old. -/

namespace EdgeNode.Obj

open Runs Sys Words

/-- `FTE_DI_CONFIG` with the two flags of its common part. -/
structure DiConfig where
  bEnable : Bool
  bReverse : Bool
  ulDelay : UInt32
  ulHold : UInt32

/-- The level that the pin's interrupt waits for. -/
inductive Polarity where
  | low
  | high

/-- The object holds `xPresetValue` as its source, and `xTime` is what `_time_get` reads. As ghosts:
the level and the time of the last sample. -/
structure DigitalInput where
  pConfig : DiConfig
  xObject : Object TimeStruct
  xPolarity : Polarity
  bInterrupt : Bool
  xTime : TimeStruct
  nSampled : Int32
  xSampled : TimeStruct

inductive DiCall where
  /-- `FTE_DI_ISR` with the pin's flag, and the level that it reads. -/
  | isr (bValue : Bool)
  /-- `FTE_DI_INT_unlock` -/
  | unlock
  /-- `FTE_DI_update` -/
  | update

def DiConfig.sample (pConfig : DiConfig) (bValue : Bool) : Int32 :=
  if bValue != pConfig.bReverse then 1 else 0

namespace DigitalInput

/-- `FTE_DI_init`: the two values are set one after the other, and the pin's interrupt is not
enabled. -/
def init (pConfig : DiConfig) (xObject : Object TimeStruct) (xPolarity : Polarity) (bValue : Bool)
    (xTime₁ xTime₂ : TimeStruct) : DigitalInput where
  pConfig
  xObject :=
    { xObject with
      value := xObject.value.set (pConfig.sample bValue) xTime₁
      source := xObject.source.set (pConfig.sample bValue) xTime₂ }
  xPolarity
  bInterrupt := false
  xTime := xTime₂
  nSampled := pConfig.sample bValue
  xSampled := xTime₂

def isr (s : DigitalInput) (bValue : Bool) : DigitalInput :=
  if s.pConfig.bEnable then
    { s with
      xObject :=
        { s.xObject with source := s.xObject.source.set (s.pConfig.sample bValue) s.xTime }
      bInterrupt := false
      nSampled := s.pConfig.sample bValue
      xSampled := s.xTime }
  else s

def unlock (s : DigitalInput) : DigitalInput :=
  if diffMilliseconds s.xTime s.xObject.source.xTimeStamp < 200 then s
  else
    { s with
      xPolarity :=
        if s.xObject.source.nValue = 1 then
          if s.pConfig.bReverse then .high else .low
        else
          if s.pConfig.bReverse then .low else .high
      bInterrupt := true }

def update (s : DigitalInput) : DigitalInput :=
  { s with
    xObject := s.xObject.diUpdate diffMilliseconds s.pConfig.ulDelay s.pConfig.ulHold s.xTime }

/-- The interrupt of a native port comes only while it is enabled. A pin of an expander is not meant:
the poll of its driver calls the interrupt also when it is disabled. -/
def call (s : DigitalInput) : DiCall → Option DigitalInput
  | .isr bValue => if s.bInterrupt then some (s.isr bValue) else none
  | .unlock => some s.unlock
  | .update => some s.update

/-- A call at a time that is not before the last one. -/
def step (s : DigitalInput) (a : DiCall × TimeStruct) : Option DigitalInput :=
  if s.xTime.msecs ≤ a.2.msecs then { s with xTime := a.2 }.call a.1 else none

/-- No difference that the call takes is of 2^31 ms or more. -/
def InRange (s : DigitalInput) (a : DiCall × TimeStruct) : Prop :=
  match a.1 with
  | .isr _ => True
  | .unlock => a.2.msecs < s.xObject.source.xTimeStamp.msecs + 2 ^ 31
  | .update => a.2.msecs < s.xObject.value.xTimeStamp.msecs + 2 ^ 31

instance (s : DigitalInput) : DecidablePred s.InRange
  | (.isr _, _) => .isTrue trivial
  | (.unlock, _) => inferInstanceAs (Decidable (_ < _))
  | (.update, _) => inferInstanceAs (Decidable (_ < _))

/-- The interrupt is disabled until the last sample is 200 ms old, so that two samples with the
levels of a change are as far apart. -/
structure Inv (s : DigitalInput) : Prop where
  sampled : s.nSampled = s.xObject.source.nValue
  sampledAt : s.xSampled = s.xObject.source.xTimeStamp
  le_source : s.xObject.value.xTimeStamp.msecs ≤ s.xObject.source.xTimeStamp.msecs
  source_le : s.xObject.source.xTimeStamp.msecs ≤ s.xTime.msecs
  locked : s.bInterrupt = true → s.xObject.source.xTimeStamp.msecs + 200 ≤ s.xTime.msecs
  apart : s.xObject.value.nValue ≠ s.xObject.source.nValue →
    s.xObject.value.xTimeStamp.msecs + 200 ≤ s.xObject.source.xTimeStamp.msecs

variable {s s' : DigitalInput} {a : DiCall × TimeStruct} {xTime : TimeStruct}

theorem inv_init {pConfig : DiConfig} {xObject : Object TimeStruct} {xPolarity : Polarity}
    {bValue : Bool} {xTime₁ xTime₂ : TimeStruct} (h : xTime₁.msecs ≤ xTime₂.msecs) :
    (init pConfig xObject xPolarity bValue xTime₁ xTime₂).Inv :=
  ⟨rfl, rfl, h, Nat.le_refl _, nofun, fun hne => absurd rfl hne⟩

theorem Inv.later (h : s.Inv) (ht : s.xTime.msecs ≤ xTime.msecs) : Inv { s with xTime } :=
  ⟨h.sampled, h.sampledAt, h.le_source, Nat.le_trans h.source_le ht,
    fun hi => Nat.le_trans (h.locked hi) ht, h.apart⟩

theorem inv_isr (h : s.Inv) (hen : s.bInterrupt = true) (bValue : Bool) : (s.isr bValue).Inv := by
  have hlocked := h.locked hen
  have hle := h.le_source
  unfold isr
  split
  · refine ⟨rfl, rfl, ?_, Nat.le_refl _, nofun, fun _ => ?_⟩
    · show s.xObject.value.xTimeStamp.msecs ≤ s.xTime.msecs
      omega
    · show s.xObject.value.xTimeStamp.msecs + 200 ≤ s.xTime.msecs
      omega
  · exact h

theorem inv_unlock (h : s.Inv)
    (hrange : s.xTime.msecs < s.xObject.source.xTimeStamp.msecs + 2 ^ 31) : s.unlock.Inv := by
  have hle := h.source_le
  have hdiff := diffMilliseconds_toInt hrange (by omega)
  unfold unlock
  split
  · exact h
  next hlong =>
    refine ⟨h.sampled, h.sampledAt, h.le_source, h.source_le, fun _ => ?_, h.apart⟩
    show s.xObject.source.xTimeStamp.msecs + 200 ≤ s.xTime.msecs
    have hmin : (200 : Int32).toInt = 200 := rfl
    rw [Int32.lt_iff_toInt_lt, hdiff, hmin] at hlong
    omega

/-- A pass takes the preset value over, or its stamp when the levels agree. -/
theorem inv_update (h : s.Inv) : s.update.Inv := by
  unfold update Object.diUpdate
  split
  · split
    · exact ⟨h.sampled, h.sampledAt, Nat.le_refl _, h.source_le, h.locked,
        fun hne => absurd rfl hne⟩
    · exact h
  next heq =>
    split
    · exact ⟨h.sampled, h.sampledAt, Nat.le_refl _, h.source_le, h.locked,
        fun hne => absurd hne heq⟩
    · exact h

theorem step_cases (hs : s.step a = some s') : s.xTime.msecs ≤ a.2.msecs ∧
    ((∃ bValue, s.bInterrupt = true ∧ s' = { s with xTime := a.2 }.isr bValue) ∨
      (a.1 = .unlock ∧ s' = { s with xTime := a.2 }.unlock) ∨
      (a.1 = .update ∧ s' = { s with xTime := a.2 }.update)) := by
  obtain ⟨c, xTime⟩ := a
  unfold step at hs
  split at hs
  next ht =>
    refine ⟨ht, ?_⟩
    cases c with
    | isr bValue =>
      dsimp only [call] at hs
      split at hs
      next hen => exact .inl ⟨bValue, hen, (Option.some.inj hs).symm⟩
      next => exact nomatch hs
    | unlock => exact .inr (.inl ⟨rfl, (Option.some.inj hs).symm⟩)
    | update => exact .inr (.inr ⟨rfl, (Option.some.inj hs).symm⟩)
  next => exact nomatch hs

theorem inv_step (h : s.Inv) (hrange : s.InRange a) (hs : s.step a = some s') : s'.Inv := by
  obtain ⟨ht, ⟨bValue, hen, rfl⟩ | ⟨hcall, rfl⟩ | ⟨-, rfl⟩⟩ := step_cases hs
  · exact inv_isr (h.later ht) hen bValue
  · simp only [InRange, hcall] at hrange
    exact inv_unlock (h.later ht) hrange
  · exact inv_update (h.later ht)

/-- What the pass compares without their signs are the ages of the sample and of the value. -/
theorem settled_ages (h : s.Inv)
    (hrange : s.xTime.msecs < s.xObject.value.xTimeStamp.msecs + 2 ^ 31)
    (hne : s.xObject.value.nValue ≠ s.xObject.source.nValue)
    (hset : settled diffMilliseconds s.pConfig.ulDelay s.pConfig.ulHold s.xObject.source
      s.xObject.value s.xTime = true) :
    s.xObject.source.xTimeStamp.msecs + s.pConfig.ulDelay.toNat ≤ s.xTime.msecs ∧
      s.xObject.value.xTimeStamp.msecs + s.pConfig.ulHold.toNat ≤ s.xTime.msecs := by
  have hapart := h.apart hne
  have hle := h.source_le
  have hdelay := diffMilliseconds_toInt (t := s.xObject.source.xTimeStamp) (u := s.xTime) (by omega)
    (by omega)
  have hhold := diffMilliseconds_toInt (t := s.xObject.value.xTimeStamp) (u := s.xTime) (by omega)
    hrange
  have hdelayWord := toNat_toUInt32 hdelay
  have hholdWord := toNat_toUInt32 hhold
  simp only [settled, Bool.and_eq_true, Bool.or_eq_true, beq_iff_eq, decide_eq_true_eq, ge_iff_le,
    UInt32.le_iff_toNat_le, ← Int32.toInt_inj, ← UInt32.toNat_inj, hhold, hdelayWord,
    hholdWord] at hset
  have hzero : (0 : Int32).toInt = 0 := rfl
  have hnone : (0 : UInt32).toNat = 0 := rfl
  rw [hzero, hnone] at hset
  -- the hold time is not zero: two samples of different levels are 200 ms apart
  obtain ⟨hheld, hdelayed⟩ := hset
  constructor <;> omega

theorem debounced_update (h : s.Inv)
    (hrange : s.xTime.msecs < s.xObject.value.xTimeStamp.msecs + 2 ^ 31)
    (hne : s.update.xObject.value.nValue ≠ s.xObject.value.nValue) :
    s.nSampled = s.update.xObject.value.nValue ∧
      s.xSampled.msecs + s.pConfig.ulDelay.toNat ≤ s.xTime.msecs ∧
      s.xObject.value.xTimeStamp.msecs + s.pConfig.ulHold.toNat ≤ s.xTime.msecs := by
  revert hne
  unfold update Object.diUpdate
  split
  next hdiff =>
    split
    next hset =>
      intro _
      rw [h.sampledAt]
      exact ⟨h.sampled, settled_ages h hrange hdiff hset⟩
    next => exact fun hne => absurd rfl hne
  next =>
    split
    · exact fun hne => absurd rfl hne
    · exact fun hne => absurd rfl hne

theorem isr_frame (s : DigitalInput) (bValue : Bool) :
    (s.isr bValue).pConfig = s.pConfig ∧ (s.isr bValue).xObject.value = s.xObject.value := by
  unfold isr
  split <;> exact ⟨rfl, rfl⟩

theorem unlock_frame (s : DigitalInput) :
    s.unlock.pConfig = s.pConfig ∧ s.unlock.xObject = s.xObject := by
  unfold unlock
  split <;> exact ⟨rfl, rfl⟩

theorem step_pConfig (hs : s.step a = some s') : s'.pConfig = s.pConfig := by
  obtain ⟨-, ⟨bValue, -, rfl⟩ | ⟨-, rfl⟩ | ⟨-, rfl⟩⟩ := step_cases hs
  · exact (isr_frame _ bValue).1
  · exact (unlock_frame _).1
  · rfl

theorem debounced_step (h : s.Inv) (hrange : s.InRange a) (hs : s.step a = some s')
    (hne : s'.xObject.value.nValue ≠ s.xObject.value.nValue) :
    s.nSampled = s'.xObject.value.nValue ∧
      s.xSampled.msecs + s.pConfig.ulDelay.toNat ≤ a.2.msecs ∧
      s.xObject.value.xTimeStamp.msecs + s.pConfig.ulHold.toNat ≤ a.2.msecs := by
  obtain ⟨ht, ⟨bValue, -, rfl⟩ | ⟨-, rfl⟩ | ⟨hcall, rfl⟩⟩ := step_cases hs
  · rw [(isr_frame _ bValue).2] at hne
    exact absurd rfl hne
  · rw [(unlock_frame _).2] at hne
    exact absurd rfl hne
  · simp only [InRange, hcall] at hrange
    have hlater := h.later ht
    exact debounced_update (s := { s with xTime := a.2 }) hlater hrange hne

section Runs

variable {pConfig : DiConfig} {xObject : Object TimeStruct} {xPolarity : Polarity} {bValue : Bool}
  {xTime₁ xTime₂ : TimeStruct} {calls : List (DiCall × TimeStruct)}

theorem applied_debounced (hclock : xTime₁.msecs ≤ xTime₂.msecs)
    (hrange : ∀ v a, Takes step (init pConfig xObject xPolarity bValue xTime₁ xTime₂) calls v a →
      v.InRange a)
    (ha : Takes step (init pConfig xObject xPolarity bValue xTime₁ xTime₂) calls s a)
    (hs : s.step a = some s') (happlied : s'.xObject.value.nValue ≠ s.xObject.value.nValue) :
    s.nSampled = s'.xObject.value.nValue ∧
      s.xSampled.msecs + pConfig.ulDelay.toNat ≤ a.2.msecs ∧
      s.xObject.value.xTimeStamp.msecs + pConfig.ulHold.toNat ≤ a.2.msecs := by
  obtain ⟨pre, hpre, hexec⟩ := id ha
  have hinv : s.Inv ∧ s.pConfig = pConfig := by
    refine @inv_of_takes _ _ step (fun v => v.Inv ∧ v.pConfig = pConfig) InRange _ s calls
      ⟨inv_init hclock, rfl⟩ ?_ hrange ⟨pre, (List.prefix_append pre [a]).trans hpre, hexec⟩
    rintro v b w ⟨hv, hconfig⟩ hb hw
    exact ⟨inv_step hv hb hw, (step_pConfig hw).trans hconfig⟩
  rw [← hinv.2]
  exact debounced_step hinv.1 (hrange s a ha) hs happlied

def low : Value TimeStruct := ⟨.dio, true, false, 0, 0, ⟨0, 0⟩⟩

/-- An input that is low, with a delay of 50 ms and a hold time of 300 ms. -/
def lowInput : DigitalInput :=
  init ⟨true, false, 50, 300⟩ ⟨.di 50 300, low, low, false, [], 0, false⟩ .high false ⟨100, 0⟩ ⟨100, 0⟩

/-- A rise 250 ms after the start, and two passes of which the second applies it. -/
def riseCalls : List (DiCall × TimeStruct) :=
  [(.unlock, ⟨100, 200⟩), (.isr true, ⟨100, 250⟩), (.update, ⟨100, 290⟩), (.update, ⟨100, 300⟩)]

theorem applied_debounced_rise : ∃ s s', Takes step lowInput riseCalls s (.update, ⟨100, 300⟩) ∧
    s.step (.update, ⟨100, 300⟩) = some s' ∧ s.xObject.value.nValue = 0 ∧
    s'.xObject.value.nValue = 1 ∧ s.nSampled = 1 ∧ s.xSampled.msecs + 50 ≤ 100300 ∧
    s.xObject.value.xTimeStamp.msecs + 300 ≤ 100300 := by
  have hrun : ((exec step (riseCalls.take 3) lowInput).bind fun s =>
      (s.step (.update, ⟨100, 300⟩)).map fun s' =>
        (s.xObject.value.nValue, s'.xObject.value.nValue)) = some (0, 1) := by
    decide +kernel
  obtain ⟨s, hs, hmap⟩ := Option.bind_eq_some_iff.mp hrun
  obtain ⟨s', hs', hvalues⟩ := Option.map_eq_some_iff.mp hmap
  obtain ⟨hold, hnew⟩ := Prod.mk.inj hvalues
  have htakes : Takes step lowInput riseCalls s (.update, ⟨100, 300⟩) :=
    ⟨riseCalls.take 3, List.prefix_rfl, hs⟩
  have hne : s'.xObject.value.nValue ≠ s.xObject.value.nValue := by
    rw [hold, hnew]
    decide
  obtain ⟨hlevel, hdelay, hhold⟩ := applied_debounced (Nat.le_refl _)
    (takes_of_along (by decide +kernel)) htakes hs' hne
  exact ⟨s, s', htakes, hs', hold, hnew, hlevel.trans hnew, hdelay, hhold⟩

end Runs

end DigitalInput

end EdgeNode.Obj
