import EdgeNode.Drv.Mcp23s08
import EdgeNode.Lib.Runs

/-! The interrupts that the polls of an MCP23S08 make out of its levels. -/

namespace EdgeNode.Drv.Mcp23s08

open Runs

section Specification

namespace State

variable (s : State)

def Attached (p : Nat) : Prop := s.dev.pParent (s.pins p).nBit = some p

/-- `FTE_MCP23S08_GPIO_getDIR` of the bit. -/
def Input (i : Fin 8) : Prop := (s.dev.pRegs regIODIR).getLsbD i = true

instance (i : Fin 8) : Decidable (s.Input i) :=
  inferInstanceAs (Decidable ((s.dev.pRegs regIODIR).getLsbD i = true))

/-- A level goes from `old` to `new` as the polarity has it. -/
def InDirection (nPolarity : UInt8) (old new : Bool) : Prop :=
  match nPolarity.toNat with
  | 1 | 4 => old = false ∧ new = true
  | 2 | 3 => old = true ∧ new = false
  | 5 => old ≠ new
  | _ => False

/-- The handlers that a successful poll calls. -/
structure Handles (regs : Nat → BitVec 8) (defval : Bool) : Prop where
  handled : ∀ p h, .handler p h ∈ (s.poll regs defval).2 ↔
    s.Attached p ∧ s.Input (s.pins p).nBit ∧ s.dev.nINTMask.getLsbD (s.pins p).nBit = true ∧
      (s.pins p).fISR = some h ∧ ∃ level, s.level = some level ∧
        InDirection (s.dev.pPolaries (s.pins p).nBit) (level.getLsbD (s.pins p).nBit)
          ((regs regGPIO).getLsbD (s.pins p).nBit)
  noNull : ∀ i, .null i ∉ (s.poll regs defval).2

/-- `FTE_MCP23S08_GPIO_getValue` of an input gives its level at the last successful read. -/
def Current : Prop :=
  ∀ p level, s.Attached p → s.Input (s.pins p).nBit → s.level = some level →
    (s.pins p).nValue = level.getLsbD (s.pins p).nBit

def ActionHandles : Action → Prop
  | .poll regs defval => s.Handles regs defval
  | _ => True

/-- The first attachment reads the registers. A pin that is an input without being configured as one, or
becomes one, holds its level. A level that changes at a poll is, of an input, one that is handled:
enabled in the expander and in the mask, in the direction of the polarity, with the entry of `f_isr`
of the pin; of an output, one for which no handler is called. -/
def Allowed : Action → Prop
  | .attach p _ found bus r _ => found = true → s.dev.pParent (s.pins p).nBit = none →
    (s.dev.nEnableMask = 0 → bus = true) →
      (s.dev.nEnableMask = 0 → r.read = true) ∧
      ((s.pins p).nDir ≠ .input → (s.found r regIODIR).getLsbD (s.pins p).nBit = true →
        (s.pins p).nValue = (s.found r regGPIO).getLsbD (s.pins p).nBit)
  | .setDIR p .input first _ => first = true → ∀ q level,
    s.dev.pParent (s.pins p).nBit = some q → s.level = some level →
      (s.pins q).nValue = level.getLsbD (s.pins p).nBit
  | .poll regs _ => ∀ i p level, s.dev.pParent i = some p → s.level = some level →
    level.getLsbD i ≠ (regs regGPIO).getLsbD i →
      (s.Input i → (s.dev.pRegs regGPINTEN).getLsbD i = true ∧
        occured (s.dev.pPolaries i) ((regs regGPIO).getLsbD i) = true ∧ s.dev.fIsr i = some p ∧
        (s.dev.nINTMask.getLsbD i = true ∨ (s.pins p).fISR = none)) ∧
      (¬ s.Input i → (s.dev.pRegs regGPINTEN).getLsbD i = true →
        occured (s.dev.pPolaries i) ((regs regGPIO).getLsbD i) = true →
          ∃ q, s.dev.fIsr i = some q ∧ (s.pins q).fISR = none)
  | _ => True

/-- An expander and its pins as they are created. -/
structure Start : Prop where
  pParent : ∀ i, s.dev.pParent i = none
  fIsr : ∀ i, s.dev.fIsr i = none
  pPolaries : ∀ i, s.dev.pPolaries i = 5
  pRegs : ∀ nReg, s.dev.pRegs nReg = 0
  masks : s.dev.nEnableMask = 0 ∧ s.dev.nINTMask = 0
  pins : ∀ p, (s.pins p).pMCP23S08 = false ∧ (s.pins p).nValue = false ∧ (s.pins p).fISR = none
  level : s.level = none

/-- Attached pins are those of the mask, the tables name pins of their bit, and the register of the
levels is what was read last. -/
structure Inv : Prop where
  mask : ∀ i : Fin 8, s.dev.nEnableMask.getLsbD i = (s.dev.pParent i).isSome
  parent : ∀ i p, s.dev.pParent i = some p → (s.pins p).nBit = i
  isr : ∀ i p, s.dev.fIsr i = some p → (s.pins p).nBit = i
  level : s.dev.nEnableMask ≠ 0 → s.level = some (s.dev.pRegs regGPIO)
  current : s.Current

end State

end Specification

namespace State

section Polls

variable {s : State} {nINTFlags : BitVec 8} {regs : Nat → BitVec 8} {defval : Bool}

theorem inDirection_iff {nPolarity : UInt8} {old new : Bool} :
    InDirection nPolarity old new ↔ old ≠ new ∧ occured nPolarity new = true := by
  unfold InDirection occured
  split <;> cases old <;> cases new <;> simp [*]

theorem isr_pins (p q : Nat) : ((s.isr p).1.pins q).nBit = (s.pins q).nBit ∧
    ((s.isr p).1.pins q).fISR = (s.pins q).fISR ∧ ((s.isr p).1.pins q).nValue =
      if q = p then (s.dev.pRegs regGPIO).getLsbD (s.pins p).nBit else (s.pins q).nValue := by
  rw [isr, withPin]
  dsimp only
  by_cases h : q = p
  · subst h
    rw [Function.update_self, if_pos rfl]
    exact ⟨rfl, rfl, rfl⟩
  · rw [Function.update_of_ne h, if_neg h]
    exact ⟨rfl, rfl, rfl⟩

/-- The loop leaves the expander as it is, and the level in the pins whose entry was called. -/
structure Serviced (nINTFlags : BitVec 8) (bits : List (Fin 8)) (s t : State) : Prop where
  dev : t.dev = s.dev
  level : t.level = s.level
  nBit : ∀ p, (t.pins p).nBit = (s.pins p).nBit
  fISR : ∀ p, (t.pins p).fISR = (s.pins p).fISR
  nValue : ∀ p, (∃ i ∈ bits, s.fires nINTFlags i = true ∧ s.dev.fIsr i = some p) ∧
      (t.pins p).nValue = (s.dev.pRegs regGPIO).getLsbD (s.pins p).nBit ∨
    (¬ ∃ i ∈ bits, s.fires nINTFlags i = true ∧ s.dev.fIsr i = some p) ∧
      (t.pins p).nValue = (s.pins p).nValue

theorem serviced (nINTFlags : BitVec 8) (bits : List (Fin 8)) (s : State) :
    Serviced nINTFlags bits s (service nINTFlags bits s).1 := by
  induction bits generalizing s with
  | nil =>
    refine ⟨rfl, rfl, fun _ => rfl, fun _ => rfl, fun p => .inr ⟨?_, rfl⟩⟩
    rintro ⟨i, hi, -⟩
    cases hi
  | cons i bits ih =>
    cases hfires : s.fires nINTFlags i with
    | false =>
      have hservice : service nINTFlags (i :: bits) s = service nINTFlags bits s := by
        rw [service, hfires]
        rfl
      obtain ⟨hdev, hlevel, hbit, hisr, hvalue⟩ := ih s
      rw [hservice]
      refine ⟨hdev, hlevel, hbit, hisr, fun p => ?_⟩
      simp only [List.exists_mem_cons_iff, hfires, Bool.false_eq_true, false_and, false_or]
      exact hvalue p
    | true =>
      cases hentry : s.dev.fIsr i with
      | none =>
        have hservice : (service nINTFlags (i :: bits) s).1 = (service nINTFlags bits s).1 := by
          rw [service, hfires, if_pos rfl, hentry]
        obtain ⟨hdev, hlevel, hbit, hisr, hvalue⟩ := ih s
        rw [hservice]
        refine ⟨hdev, hlevel, hbit, hisr, fun p => ?_⟩
        simp only [List.exists_mem_cons_iff, hentry, reduceCtorEq, and_false, false_or]
        exact hvalue p
      | some q =>
        have hservice : (service nINTFlags (i :: bits) s).1 =
            (service nINTFlags bits (s.isr q).1).1 := by
          rw [service, hfires, if_pos rfl, hentry]
        obtain ⟨hdev, hlevel, hbit, hisr, hvalue⟩ := ih (s.isr q).1
        rw [hservice]
        refine ⟨hdev, hlevel, fun p => (hbit p).trans (isr_pins q p).1,
          fun p => (hisr p).trans (isr_pins q p).2.1, fun p => ?_⟩
        have hrest := hvalue p
        have hdevq : (s.isr q).1.dev = s.dev := rfl
        have hfiresq (j : Fin 8) : (s.isr q).1.fires nINTFlags j = s.fires nINTFlags j := rfl
        simp only [hdevq, hfiresq, (isr_pins q p).1, (isr_pins q p).2.2] at hrest
        simp only [List.exists_mem_cons_iff, hfires, hentry, true_and, Option.some.injEq]
        by_cases hqp : q = p
        · subst hqp
          left
          refine ⟨.inl rfl, ?_⟩
          rw [if_pos rfl] at hrest
          exact hrest.elim And.right And.right
        · rw [if_neg (Ne.symm hqp)] at hrest
          simp only [hqp, false_or]
          exact hrest

theorem mem_service (nINTFlags : BitVec 8) (bits : List (Fin 8)) (s : State) (e : Event) :
    e ∈ (service nINTFlags bits s).2 ↔ ∃ i ∈ bits, s.fires nINTFlags i = true ∧
      (s.dev.fIsr i = none ∧ e = .null i ∨
        ∃ p h, s.dev.fIsr i = some p ∧ (s.pins p).fISR = some h ∧ e = .handler p h) := by
  induction bits generalizing s with
  | nil =>
    refine iff_of_false (List.not_mem_nil) ?_
    rintro ⟨i, hi, -⟩
    cases hi
  | cons i bits ih =>
    rw [List.exists_mem_cons_iff]
    cases hfires : s.fires nINTFlags i with
    | false =>
      have hservice : service nINTFlags (i :: bits) s = service nINTFlags bits s := by
        rw [service, hfires]
        rfl
      simp only [hservice, ih, Bool.false_eq_true, false_and, false_or]
    | true =>
      cases hentry : s.dev.fIsr i with
      | none =>
        have hservice : (service nINTFlags (i :: bits) s).2 =
            .null i :: (service nINTFlags bits s).2 := by
          rw [service, hfires, if_pos rfl, hentry]
        simp only [hservice, List.mem_cons, ih, true_and, reduceCtorEq, false_and, exists_const,
          or_false]
      | some q =>
        have hservice : (service nINTFlags (i :: bits) s).2 =
            (s.isr q).2 ++ (service nINTFlags bits (s.isr q).1).2 := by
          rw [service, hfires, if_pos rfl, hentry]
        have hdevq : (s.isr q).1.dev = s.dev := rfl
        have hfiresq (j : Fin 8) : (s.isr q).1.fires nINTFlags j = s.fires nINTFlags j := rfl
        have hcalled : e ∈ (s.isr q).2 ↔ ∃ h, (s.pins q).fISR = some h ∧ e = .handler q h := by
          simp only [isr, List.mem_map, Option.mem_toList, eq_comm]
        rw [hservice, List.mem_append, hcalled, ih]
        simp only [hdevq, hfiresq, (isr_pins q _).2.1, true_and, reduceCtorEq, false_and, false_or,
          Option.some.injEq, exists_and_left, exists_eq_left']

/-- What a poll that finds other levels has its loop see: the expander with the levels read. -/
def polled (s : State) (regs : Nat → BitVec 8) (defval : Bool) : State :=
  { s with
    dev := ({ s.dev with
      pRegs := Function.update s.dev.pRegs regGPIO (regs regGPIO) }.setReg regDEFVAL (regs regGPIO)
        defval).2
    level := some (regs regGPIO) }

/-- The flags of a poll. -/
def flags (s : State) (regs : Nat → BitVec 8) : BitVec 8 :=
  (s.dev.pRegs regGPIO ^^^ regs regGPIO) &&& s.dev.nEnableMask &&& s.dev.pRegs regGPINTEN

theorem poll_of_changed (h : s.dev.pRegs regGPIO ≠ regs regGPIO) :
    s.poll regs defval = service (s.flags regs) (List.finRange 8) (s.polled regs defval) := by
  rw [poll, if_pos h]
  rfl

theorem poll_of_same (h : s.dev.pRegs regGPIO = regs regGPIO) :
    s.poll regs defval = ({ s with level := some (regs regGPIO) }, []) := by
  rw [poll, if_neg (not_not_intro h)]

theorem polled_regs {nReg : Nat} (h : nReg ≠ regDEFVAL) : (s.polled regs defval).dev.pRegs nReg =
    if nReg = regGPIO then regs regGPIO else s.dev.pRegs nReg := by
  unfold polled Expander.setReg
  cases defval with
  | false => simp only [Bool.false_eq_true, if_false, Function.update_apply]
  | true => simp only [if_true, Function.update_apply, h, if_false]

theorem polled_dev : (s.polled regs defval).dev.fIsr = s.dev.fIsr ∧
    (s.polled regs defval).dev.pParent = s.dev.pParent ∧
    (s.polled regs defval).dev.pPolaries = s.dev.pPolaries ∧
    (s.polled regs defval).dev.nEnableMask = s.dev.nEnableMask ∧
    (s.polled regs defval).dev.nINTMask = s.dev.nINTMask := by
  unfold polled Expander.setReg
  cases defval <;> exact ⟨rfl, rfl, rfl, rfl, rfl⟩

theorem fires_polled (i : Fin 8) : (s.polled regs defval).fires (s.flags regs) i = true ↔
    (s.dev.pRegs regGPIO).getLsbD i ≠ (regs regGPIO).getLsbD i ∧
      s.dev.nEnableMask.getLsbD i = true ∧ (s.dev.pRegs regGPINTEN).getLsbD i = true ∧
      occured (s.dev.pPolaries i) ((regs regGPIO).getLsbD i) = true := by
  have hgpio : (s.polled regs defval).dev.pRegs regGPIO = regs regGPIO :=
    polled_regs (by decide)
  rw [fires, hgpio, polled_dev.2.2.1, flags]
  simp only [BitVec.getLsbD_and, BitVec.getLsbD_xor, Bool.and_eq_true, bne_iff_ne, ne_eq, and_assoc]

end Polls

section Invariant

variable {s t : State} {regs : Nat → BitVec 8} {defval : Bool} {p : Nat} {i : Fin 8}

theorem Inv.enabled (hi : s.Inv) (hp : s.dev.pParent i = some p) :
    s.dev.nEnableMask.getLsbD i = true ∧ s.level = some (s.dev.pRegs regGPIO) := by
  have hbit : s.dev.nEnableMask.getLsbD i = true := by
    rw [hi.mask, hp]
    rfl
  refine ⟨hbit, hi.level fun hzero => ?_⟩
  rw [hzero] at hbit
  simp at hbit

/-- The loop comes to an attached pin exactly when its level changed, it is enabled in the expander, and
the direction is that of the polarity. -/
theorem Inv.fires_iff (hi : s.Inv) (hp : s.dev.pParent i = some p) :
    (s.polled regs defval).fires (s.flags regs) i = true ↔
      (s.dev.pRegs regGPIO).getLsbD i ≠ (regs regGPIO).getLsbD i ∧
        (s.dev.pRegs regGPINTEN).getLsbD i = true ∧
        occured (s.dev.pPolaries i) ((regs regGPIO).getLsbD i) = true := by
  rw [fires_polled]
  exact and_congr_right fun _ => and_iff_right (hi.enabled hp).1

theorem Inv.parent_of_fires (hi : s.Inv)
    (h : (s.polled regs defval).fires (s.flags regs) i = true) : ∃ p, s.dev.pParent i = some p := by
  have hmask := ((fires_polled i).mp h).2.1
  rw [hi.mask] at hmask
  exact Option.isSome_iff_exists.mp hmask

theorem Inv.handles (hi : s.Inv) (ha : s.Allowed (.poll regs defval)) : s.Handles regs defval := by
  by_cases hsame : s.dev.pRegs regGPIO = regs regGPIO
  · -- nothing changed, of no pin
    have hevents : (s.poll regs defval).2 = [] := by rw [poll_of_same hsame]
    constructor
    · intro p h
      rw [hevents]
      refine iff_of_false List.not_mem_nil ?_
      rintro ⟨hp, -, -, -, level, hlevel, hdir⟩
      rw [(hi.enabled hp).2, Option.some.injEq] at hlevel
      rw [← hlevel, hsame] at hdir
      exact (inDirection_iff.mp hdir).1 rfl
    · intro i
      rw [hevents]
      exact List.not_mem_nil
  · have hevents (e : Event) : e ∈ (s.poll regs defval).2 ↔ ∃ i,
        (s.polled regs defval).fires (s.flags regs) i = true ∧
          (s.dev.fIsr i = none ∧ e = .null i ∨
            ∃ p h, s.dev.fIsr i = some p ∧ (s.pins p).fISR = some h ∧ e = .handler p h) := by
      rw [poll_of_changed hsame, mem_service, polled_dev.1]
      simp only [List.mem_finRange, true_and]
      rfl
    have hcase (i : Fin 8) (hf : (s.polled regs defval).fires (s.flags regs) i = true) :
        (∃ p, s.dev.fIsr i = some p ∧ s.dev.pParent i = some p ∧ s.Input i ∧
          (s.dev.nINTMask.getLsbD i = true ∨ (s.pins p).fISR = none)) ∨
        ∃ p, s.dev.fIsr i = some p ∧ (s.pins p).fISR = none := by
      obtain ⟨p, hp⟩ := hi.parent_of_fires hf
      obtain ⟨hchanged, hint, hdir⟩ := (hi.fires_iff hp).mp hf
      obtain ⟨hin, hout⟩ := ha i p _ hp (hi.enabled hp).2 hchanged
      by_cases hinput : s.Input i
      · obtain ⟨-, -, hentry, hmask⟩ := hin hinput
        exact .inl ⟨p, hentry, hp, hinput, hmask⟩
      · exact .inr (hout hinput hint hdir)
    constructor
    · intro p h
      rw [hevents]
      constructor
      · rintro ⟨i, hf, ⟨-, heq⟩ | ⟨q, k, hentry, hisr, heq⟩⟩
        · cases heq
        · cases heq
          obtain ⟨q, hentry', hp, hinput, hmask⟩ | ⟨q, hentry', hnone⟩ := hcase i hf
          · obtain rfl := Option.some.inj (hentry'.symm.trans hentry)
            obtain rfl := hi.parent _ _ hp
            have hmask := hmask.resolve_right (by rw [hisr]; exact Option.some_ne_none _)
            obtain ⟨hchanged, -, hdir⟩ := (hi.fires_iff hp).mp hf
            exact ⟨hp, hinput, hmask, hisr, _, (hi.enabled hp).2, inDirection_iff.mpr ⟨hchanged, hdir⟩⟩
          · obtain rfl := Option.some.inj (hentry'.symm.trans hentry)
            rw [hnone] at hisr
            cases hisr
      · rintro ⟨hp, hinput, -, hisr, level, hlevel, hdir⟩
        obtain ⟨hchanged, hocc⟩ := inDirection_iff.mp hdir
        obtain ⟨hint, -, hentry, -⟩ := (ha _ p level hp hlevel hchanged).1 hinput
        rw [(hi.enabled hp).2, Option.some.injEq] at hlevel
        subst hlevel
        exact ⟨_, (hi.fires_iff hp).mpr ⟨hchanged, hint, hocc⟩, .inr ⟨p, h, hentry, hisr, rfl⟩⟩
    · intro i
      rw [hevents]
      rintro ⟨j, hf, ⟨hnone, heq⟩ | ⟨q, k, -, -, heq⟩⟩
      · obtain ⟨q, hentry, -⟩ | ⟨q, hentry, -⟩ := hcase j hf
        · rw [hnone] at hentry
          cases hentry
        · rw [hnone] at hentry
          cases hentry
      · cases heq

theorem Inv.poll (hi : s.Inv) (ha : s.Allowed (.poll regs defval)) : (s.poll regs defval).1.Inv := by
  by_cases hsame : s.dev.pRegs regGPIO = regs regGPIO
  · rw [poll_of_same hsame]
    refine ⟨hi.mask, hi.parent, hi.isr, fun _ => congrArg some hsame.symm, ?_⟩
    rintro p _ hp hinput ⟨⟩
    rw [← hsame]
    exact hi.current p _ hp hinput (hi.enabled hp).2
  · rw [poll_of_changed hsame]
    obtain ⟨hdev, hlevel, hbit, -, hvalue⟩ :=
      serviced (s.flags regs) (List.finRange 8) (s.polled regs defval)
    generalize (service (s.flags regs) (List.finRange 8) (s.polled regs defval)).1 = t at *
    obtain ⟨hentries, hparents, -, hmask, -⟩ := @polled_dev s regs defval
    have hgpio : (s.polled regs defval).dev.pRegs regGPIO = regs regGPIO := polled_regs (by decide)
    have hiodir : (s.polled regs defval).dev.pRegs regIODIR = s.dev.pRegs regIODIR :=
      polled_regs (by decide)
    constructor
    · intro i
      rw [hdev, hmask, hparents]
      exact hi.mask i
    · intro i p hp
      rw [hdev, hparents] at hp
      exact (hbit p).trans (hi.parent i p hp)
    · intro i p hp
      rw [hdev, hentries] at hp
      exact (hbit p).trans (hi.isr i p hp)
    · intro _
      rw [hlevel, hdev, hgpio]
      rfl
    · intro p level hp hinput hread
      rw [Attached, hdev, hparents, hbit] at hp
      rw [Input, hdev, hiodir, hbit] at hinput
      rw [hlevel] at hread
      obtain rfl := Option.some.inj hread
      rw [hbit]
      have hvalue := hvalue p
      simp only [List.mem_finRange, true_and, hentries, hgpio] at hvalue
      obtain ⟨-, hnew⟩ | ⟨hnone, hold⟩ := hvalue
      · exact hnew
      · -- its entry was not called, so its level is the one before
        rw [hold]
        by_contra hne
        have hcurrent := hi.current p _ hp hinput (hi.enabled hp).2
        have hchanged : (s.dev.pRegs regGPIO).getLsbD (s.pins p).nBit ≠
            (regs regGPIO).getLsbD (s.pins p).nBit := fun heq => hne (hcurrent.trans heq)
        obtain ⟨hint, hdir, hentry, -⟩ := (ha _ p _ hp (hi.enabled hp).2 hchanged).1 hinput
        exact hnone ⟨_, (hi.fires_iff hp).mpr ⟨hchanged, hint, hdir⟩, hentry⟩

/-- What leaves the tables, the levels and the values of the pins keeps the invariant, if pins that
become inputs hold their level. -/
theorem Inv.next (hi : s.Inv) (hparent : t.dev.pParent = s.dev.pParent)
    (hmask : t.dev.nEnableMask = s.dev.nEnableMask)
    (hgpio : t.dev.pRegs regGPIO = s.dev.pRegs regGPIO) (hlevel : t.level = s.level)
    (hpins : ∀ q, (t.pins q).nBit = (s.pins q).nBit ∧ (t.pins q).nValue = (s.pins q).nValue)
    (hisr : ∀ i p, t.dev.fIsr i = some p → (s.pins p).nBit = i)
    (hinput : ∀ q level, s.Attached q → s.level = some level → t.Input (s.pins q).nBit →
      s.Input (s.pins q).nBit ∨ (s.pins q).nValue = level.getLsbD (s.pins q).nBit) : t.Inv := by
  constructor
  · intro i
    rw [hmask, hparent]
    exact hi.mask i
  · intro i q hq
    rw [hparent] at hq
    exact (hpins q).1.trans (hi.parent i q hq)
  · intro i q hq
    exact (hpins q).1.trans (hisr i q hq)
  · intro hrun
    rw [hmask] at hrun
    rw [hlevel, hgpio]
    exact hi.level hrun
  · intro q level hq hin hread
    rw [Attached, hparent, (hpins q).1] at hq
    rw [(hpins q).1] at hin
    rw [hlevel] at hread
    rw [(hpins q).1, (hpins q).2]
    obtain hold | hvalue := hinput q level hq hread hin
    · exact hi.current q level hq hold hread
    · exact hvalue

theorem withPin_pins {pin : Pin} (hbit : pin.nBit = (s.pins p).nBit)
    (hvalue : pin.nValue = (s.pins p).nValue) (q : Nat) :
    ((s.withPin p pin).pins q).nBit = (s.pins q).nBit ∧
      ((s.withPin p pin).pins q).nValue = (s.pins q).nValue := by
  dsimp only [withPin]
  rw [Function.update_apply]
  split
  next heq =>
    subst heq
    exact ⟨hbit, hvalue⟩
  next => exact ⟨rfl, rfl⟩

theorem Inv.attach (hi : s.Inv) (ha : s.Allowed (.attach p nParent hasDev bus r defval)) :
    (s.attach p nParent hasDev bus r defval).2.Inv := by
  by_cases hgo : s.Attachable p hasDev bus
  · obtain ⟨hread, hdir⟩ := ha hgo.1 hgo.2.1 hgo.2.2
    obtain ⟨-, hparent, hmask, hisr, hgpio, hiodir, hlevel, hbit, -, hvalue⟩ :=
      @attach_of_attachable s p nParent hasDev bus r defval hgo
    generalize (s.attach p nParent hasDev bus r defval).2 = t at *
    have hlevel : t.level = some (s.found r regGPIO) := by
      rw [hlevel, found]
      by_cases hzero : s.dev.nEnableMask = 0
      · rw [if_pos ⟨hzero, hread hzero⟩, if_pos hzero]
      · rw [if_neg fun h => hzero h.1, if_neg hzero]
        exact hi.level hzero
    constructor
    · intro i
      rw [hmask, hparent, getLsbD_setBit, Function.update_apply]
      split
      · rfl
      · exact hi.mask i
    · intro i q hq
      rw [hparent, Function.update_apply] at hq
      rw [hbit]
      split at hq
      next heq =>
        obtain rfl := Option.some.inj hq
        exact heq.symm
      next => exact hi.parent i q hq
    · intro i q hq
      rw [hisr] at hq
      exact (hbit q).trans (hi.isr i q hq)
    · intro _
      rw [hlevel, hgpio]
    · intro q level hq hinput hread'
      rw [hlevel, Option.some.injEq] at hread'
      rw [Attached, hparent, hbit, Function.update_apply] at hq
      rw [Input, hiodir, hbit] at hinput
      rw [hvalue, hbit, ← hread']
      split at hq
      next heq =>
        obtain rfl := Option.some.inj hq
        by_cases hin : (s.pins p).nDir = .input
        · rw [if_pos ⟨rfl, hin⟩]
        · rw [if_neg fun h => hin h.2]
          exact hdir hin hinput
      next hne =>
        -- another pin is attached, so the expander runs and nothing was read
        have hqp : ¬ (q = p ∧ (s.pins p).nDir = .input) := fun h => hne (by rw [h.1])
        rw [if_neg hqp]
        have hrun : s.dev.nEnableMask ≠ 0 := fun hzero => by
          have hset := (hi.enabled hq).1
          rw [hzero] at hset
          simp at hset
        rw [found, if_neg hrun] at hinput ⊢
        exact hi.current q _ hq hinput (hi.level hrun)
  · rw [attach_of_not_attachable hgo]
    exact hi.next rfl rfl rfl rfl (withPin_pins rfl rfl) hi.isr fun _ _ _ _ hin => .inl hin

end Invariant

section Settings

variable {s : State} {p : Nat}

theorem setRegBit_regs (d : Expander) (nReg : Nat) (nBit : Fin 8) (nValue ok : Bool) (k : Nat) :
    (d.setRegBit nReg nBit nValue ok).2.pRegs k =
      if k = nReg ∧ ok = true then setBit (d.pRegs nReg) nBit nValue else d.pRegs k := by
  rw [Expander.setRegBit, Expander.setReg]
  cases ok with
  | false => simp
  | true => simp [Function.update_apply]

theorem setRegBit_frame (d : Expander) (nReg : Nat) (nBit : Fin 8) (nValue ok : Bool) :
    (d.setRegBit nReg nBit nValue ok).2.pParent = d.pParent ∧
      (d.setRegBit nReg nBit nValue ok).2.fIsr = d.fIsr ∧
      (d.setRegBit nReg nBit nValue ok).2.nEnableMask = d.nEnableMask := by
  rw [Expander.setRegBit, Expander.setReg]
  cases ok <;> exact ⟨rfl, rfl, rfl⟩

/-- Two writes of bits that leave the levels as they are. -/
theorem Inv.setBits (hi : s.Inv) {nReg nReg' : Nat} {nBit : Fin 8} {v v' ok ok' : Bool}
    (hgpio : regGPIO ≠ nReg ∧ regGPIO ≠ nReg')
    (hinput : ∀ q level, s.Attached q → s.level = some level →
      ((((s.dev.setRegBit nReg nBit v ok).2.setRegBit nReg' nBit v' ok').2.pRegs regIODIR).getLsbD
        (s.pins q).nBit = true) →
      s.Input (s.pins q).nBit ∨ (s.pins q).nValue = level.getLsbD (s.pins q).nBit) :
    Inv { s with dev := ((s.dev.setRegBit nReg nBit v ok).2.setRegBit nReg' nBit v' ok').2 } := by
  obtain ⟨hparent, hisr, hmask⟩ := setRegBit_frame s.dev nReg nBit v ok
  obtain ⟨hparent', hisr', hmask'⟩ :=
    setRegBit_frame (s.dev.setRegBit nReg nBit v ok).2 nReg' nBit v' ok'
  refine hi.next (hparent'.trans hparent) (hmask'.trans hmask) ?_ rfl (fun _ => ⟨rfl, rfl⟩) ?_ hinput
  · dsimp only
    rw [setRegBit_regs, if_neg fun h => hgpio.2 h.1, setRegBit_regs, if_neg fun h => hgpio.1 h.1]
  · intro i q hq
    exact hi.isr i q (by rw [← hisr, ← hisr']; exact hq)

theorem Inv.setDIR (hi : s.Inv) {nValue : Dir} {first second : Bool}
    (ha : s.Allowed (.setDIR p nValue first second)) :
    (s.setDIR p nValue first second).2.Inv := by
  have hne : regIODIR ≠ regGPINTEN := by decide
  unfold State.setDIR
  dsimp only
  split
  · cases nValue with
    | noChange => exact hi
    | input =>
      apply hi.setBits ⟨by decide, by decide⟩
      intro q level hq hread hin
      rw [setRegBit_regs, if_neg fun h => hne h.1, setRegBit_regs] at hin
      split at hin
      next hfirst =>
        rw [getLsbD_setBit] at hin
        split at hin
        next hbit =>
          right
          rw [hbit]
          exact ha hfirst.2 q level (by rw [← hbit]; exact hq) hread
        next => exact .inl hin
      next => exact .inl hin
    | output =>
      apply hi.setBits ⟨by decide, by decide⟩
      intro q level hq hread hin
      left
      have hkeep : ((s.dev.setRegBit regGPINTEN (s.pins p).nBit false first).2.pRegs regIODIR) =
          s.dev.pRegs regIODIR := by
        rw [setRegBit_regs, if_neg fun h => hne h.1]
      rw [setRegBit_regs, hkeep] at hin
      split at hin
      next =>
        rw [getLsbD_setBit] at hin
        split at hin
        next => cases hin
        next => exact hin
      next => exact hin
  · exact hi

theorem Inv.setPolarity (hi : s.Inv) (nPolarity : UInt8) : (s.setPolarity p nPolarity).Inv := by
  have hpins := @withPin_pins s p { s.pins p with nPolarity } rfl rfl
  exact hi.next rfl rfl rfl rfl hpins hi.isr fun _ _ _ _ hin => .inl hin

theorem Inv.setISR (hi : s.Inv) (fISR : Option Nat) : (s.setISR p fISR).Inv := by
  have hpins := @withPin_pins s p { s.pins p with fISR } rfl rfl
  refine hi.next rfl rfl rfl rfl hpins ?_ fun _ _ _ _ hin => .inl hin
  intro i q hq
  change Function.update s.dev.fIsr (s.pins p).nBit (some p) i = some q at hq
  rw [Function.update_apply] at hq
  split at hq
  next heq =>
    obtain rfl := Option.some.inj hq
    exact heq.symm
  next => exact hi.isr i q hq

theorem Inv.intEnable (hi : s.Inv) (bEnable : Bool) : (s.intEnable p bEnable).2.Inv := by
  rw [State.intEnable]
  split
  · obtain ⟨hparent, hisr, hmask, hgpio, hiodir⟩ := keeps_intEnable s.dev (s.pins p).nBit bEnable
    refine hi.next hparent hmask hgpio rfl (fun _ => ⟨rfl, rfl⟩) ?_ ?_
    · intro i q hq
      exact hi.isr i q (by rw [← hisr]; exact hq)
    · intro q level hq hread hin
      left
      rw [Input, ← hiodir]
      exact hin
  · exact hi

end Settings

section Results

variable {s t u : State} {acts : List Action}

theorem Start.inv (h : s.Start) : s.Inv := by
  have hmask := h.masks.1
  refine ⟨fun i => ?_, fun i p hp => ?_, fun i p hp => ?_, fun hrun => absurd hmask hrun, ?_⟩
  · rw [hmask, h.pParent]
    simp
  · rw [h.pParent] at hp
    cases hp
  · rw [h.fIsr] at hp
    cases hp
  · intro p level hp
    rw [Attached, h.pParent] at hp
    cases hp

theorem inv_step {a : Action} (hi : s.Inv) (ha : s.Allowed a) (h : step s a = some t) : t.Inv := by
  cases a with
  | attach p nParent hasDev bus r defval =>
    obtain rfl := Option.some.inj h
    exact hi.attach ha
  | setDIR p nValue first second =>
    obtain rfl := Option.some.inj h
    exact hi.setDIR ha
  | setPolarity p nPolarity =>
    rw [step] at h
    split at h
    · obtain rfl := Option.some.inj h
      exact hi.setPolarity nPolarity
    · cases h
  | setISR p fISR =>
    rw [step] at h
    split at h
    · obtain rfl := Option.some.inj h
      exact hi.setISR fISR
    · cases h
  | intEnable p bEnable =>
    obtain rfl := Option.some.inj h
    exact hi.intEnable bEnable
  | poll regs defval =>
    obtain rfl := Option.some.inj h
    exact hi.poll ha
  | failedPoll =>
    obtain rfl := Option.some.inj h
    exact hi

theorem Inv.actionHandles {a : Action} (hi : s.Inv) (ha : s.Allowed a) : s.ActionHandles a := by
  cases a with
  | poll regs defval => exact hi.handles ha
  | _ => trivial

/-- In a run whose steps are all allowed, the inputs are current in every state, and every successful
poll calls the handlers that it is to call. -/
theorem interrupts_of_allowed (hs : s.Start) (h : ∀ u a, Takes step s acts u a → u.Allowed a) :
    (∀ u, Visits step s acts u → u.Current) ∧ ∀ u a, Takes step s acts u a → u.ActionHandles a := by
  have hinv (u : State) (hu : Visits step s acts u) : u.Inv :=
    inv_of_takes hs.inv (fun _ _ _ => inv_step) h hu
  refine ⟨fun u hu => (hinv u hu).current, fun u a hu => ?_⟩
  obtain ⟨pre, hpre, hrun⟩ := hu
  have hvisit : Visits step s acts u := ⟨pre, (List.prefix_append pre [a]).trans hpre, hrun⟩
  exact (hinv u hvisit).actionHandles (h u a ⟨pre, hpre, hrun⟩)

/-- An expander as it is created, with an input on its first bit. -/
def created : State :=
  ⟨⟨fun _ => none, fun _ => none, fun _ => 5, fun _ => 0, 0, 0⟩,
    fun _ => ⟨0, .input, false, 0, 1, false, false, none⟩, none⟩

theorem start_created : created.Start :=
  ⟨fun _ => rfl, fun _ => rfl, fun _ => rfl, fun _ => rfl, ⟨rfl, rfl⟩, fun _ => ⟨rfl, rfl, rfl⟩, rfl⟩

/-- All pins are inputs and low. -/
def inputs : Init := ⟨true, fun nReg => if nReg = regIODIR then 0xFF else 0, true, true, true, true⟩

def attachFirst : Action := .attach 0 1 true true inputs true

/-- The first pin goes high. -/
def pollHigh : Action := .poll (fun nReg => if nReg = regGPIO then 1 else 0) true

def served : List Action := [attachFirst, .setISR 0 (some 7), pollHigh]

theorem served_interrupts : (∀ u, Visits step created served u → u.Current) ∧
    ∀ u a, Takes step created served u a → u.ActionHandles a := by
  apply interrupts_of_allowed start_created
  apply takes_of_along
  refine ⟨fun _ _ _ => ⟨fun _ => rfl, fun hne => absurd rfl hne⟩, fun t ht => ?_⟩
  obtain rfl := Option.some.inj ht
  refine ⟨trivial, fun t ht => ?_⟩
  obtain rfl := Option.some.inj ht
  refine ⟨fun i p level hp _ _ => ?_, fun _ _ => trivial⟩
  have hbit : i = 0 := by
    by_contra hne
    have hnone : some p = none := hp.symm.trans (Function.update_of_ne hne _ _)
    cases hnone
  subst hbit
  obtain rfl := Option.some.inj hp
  have hinput : ((created.attach 0 1 true true inputs true).2.setISR 0 (some 7)).Input 0 := by decide
  exact ⟨fun _ => ⟨by decide, by decide, rfl, .inl (by decide)⟩, fun hno => absurd hinput hno⟩

/-- The level of an input without a handler changes: the entry that was not set is called. -/
theorem pollHigh_null : ¬ ∀ (s : State) (acts : List Action), s.Start →
    (∀ u, Visits step s acts u → u.Current) ∧ ∀ u a, Takes step s acts u a → u.ActionHandles a := by
  intro h
  have hhandles := (h created [attachFirst, pollHigh] start_created).2
    (created.attach 0 1 true true inputs true).2 pollHigh ⟨[attachFirst], List.prefix_rfl, rfl⟩
  exact hhandles.noNull 0 (by decide)

end Results

end State

end EdgeNode.Drv.Mcp23s08
