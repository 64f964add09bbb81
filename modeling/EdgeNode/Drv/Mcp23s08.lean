import EdgeNode.Types
import Mathlib.Data.List.Basic

/-! The port expander MCP23S08 and its pins: attachment, direction, and the polls of its levels. -/

namespace EdgeNode.Drv.Mcp23s08

section Registers

/-- `1 << nBit` set or cleared in a register. -/
def setBit (b : BitVec 8) (i : Fin 8) (v : Bool) : BitVec 8 :=
  if v then b ||| 1#8 <<< i.val else b &&& ~~~(1#8 <<< i.val)

@[simp] theorem getLsbD_setBit (b : BitVec 8) (i j : Fin 8) (v : Bool) :
    (setBit b i v).getLsbD j = if j = i then v else b.getLsbD j := by
  have hbit : (1#8 <<< i.val).getLsbD j = decide (j = i) := by
    rw [← BitVec.twoPow_eq, BitVec.getLsbD_twoPow]
    simp [Fin.ext_iff, eq_comm]
  cases v with
  | false =>
    rw [setBit, if_neg (by decide), BitVec.getLsbD_and, BitVec.getLsbD_not, hbit]
    by_cases h : j = i <;> simp [h]
  | true =>
    rw [setBit, if_pos rfl, BitVec.getLsbD_or, hbit]
    by_cases h : j = i <;> simp [h]

def regIODIR : Nat := 0x00
def regGPINTEN : Nat := 0x02
def regDEFVAL : Nat := 0x03
def regINTCON : Nat := 0x04
def regIOCON : Nat := 0x05
def regGPIO : Nat := 0x09

end Registers

section Expanders

/-- `FTE_GPIO_DIR` -/
inductive Dir where
  | input
  | output
  | noChange
deriving DecidableEq

/-- `FTE_MCP23S08_GPIO` with what is used of its configuration; `pMCP23S08` says whether it was set, and
`fISR` which handler was. -/
structure Pin where
  nBit : Fin 8
  nDir : Dir
  pMCP23S08 : Bool
  nParent : UInt32
  nPolarity : UInt8
  nValue : Bool
  bINTFlag : Bool
  fISR : Option Nat
deriving DecidableEq

/-- `FTE_MCP23S08`: the parents and the entries of `f_isr` are pins. -/
structure Expander where
  pParent : Fin 8 → Option Nat
  fIsr : Fin 8 → Option Nat
  pPolaries : Fin 8 → UInt8
  pRegs : Nat → BitVec 8
  nEnableMask : BitVec 8
  nINTMask : BitVec 8

/-- The transfers of the initialisation: what the read of all registers returns and leaves of them, and
which of the writes succeed. -/
structure Init where
  read : Bool
  regs : Nat → BitVec 8
  iocon : Bool
  intcon : Bool
  defval : Bool
  gpinten : Bool

namespace Expander

variable (d : Expander)

/-- `FTE_MCP23S08_setReg`; the register is remembered if it was written. -/
def setReg (nReg : Nat) (nValue : BitVec 8) (ok : Bool) : Bool × Expander :=
  if ok then (true, { d with pRegs := Function.update d.pRegs nReg nValue }) else (false, d)

/-- `FTE_MCP23S08_setRegBit`. -/
def setRegBit (nReg : Nat) (nBit : Fin 8) (nValue ok : Bool) : Bool × Expander :=
  d.setReg nReg (setBit (d.pRegs nReg) nBit nValue) ok

/-- `_FTE_MCP23S08_init` behind the reset. -/
def init (r : Init) : Expander :=
  let d := { d with pRegs := r.regs }
  if r.read then
    let (ok, d) := d.setReg regIOCON 0x02 r.iocon
    if ok then
      let (ok, d) := d.setReg regINTCON 0xFF r.intcon
      if ok then
        let (_, d) := d.setReg regDEFVAL (d.pRegs regGPIO) r.defval
        (d.setReg regGPINTEN (d.pRegs regIODIR) r.gpinten).2
      else d
    else d
  else d

/-- `FTE_MCP23S08_attach` of the pin `p`: the first one starts the expander, if its bus and its own
ports can be had, and what the initialisation returns is not looked at. -/
def attach (p : Nat) (nBit : Fin 8) (bus : Bool) (r : Init) : Bool × Expander :=
  if (d.pParent nBit).isSome then (false, d)
  else if d.nEnableMask = 0 ∧ ¬ bus then (false, d)
  else
    let d := if d.nEnableMask = 0 then d.init r else d
    (true, { d with
      pParent := Function.update d.pParent nBit (some p)
      nEnableMask := setBit d.nEnableMask nBit true })

/-- `FTE_MCP23S08_INT_enableRegBit`. -/
def intEnableRegBit (nBit : Fin 8) (bEnable : Bool) : Expander :=
  if d.nINTMask.getLsbD nBit ≠ bEnable then { d with nINTMask := setBit d.nINTMask nBit bEnable }
  else d

end Expander

end Expanders

section Pins

/-- An expander with its pins, and as a ghost its levels at the last successful read. -/
structure State where
  dev : Expander
  pins : Nat → Pin
  level : Option (BitVec 8)

inductive Event where
  | handler (p h : Nat)
  | null (i : Fin 8)
deriving DecidableEq

namespace State

variable (s : State)

def withPin (p : Nat) (pin : Pin) : State := { s with pins := Function.update s.pins p pin }

/-- `FTE_MCP23S08_GPIO_attach`; `found` says whether there is the expander, and `defval` whether the
default value can be written. -/
def attach (p : Nat) (nParent : UInt32) (found bus : Bool) (r : Init) (defval : Bool) : Ret × State :=
  let pGpio := { s.pins p with pMCP23S08 := found }
  let s := s.withPin p pGpio
  if found then
    let level := if s.dev.nEnableMask = 0 ∧ r.read then some (r.regs regGPIO) else s.level
    match s.dev.attach p pGpio.nBit bus r with
    | (false, _) => (retError, s)
    | (true, dev) =>
      if pGpio.nDir = .input then
        let nValue := (dev.pRegs regGPIO).getLsbD pGpio.nBit
        let dev := (dev.setRegBit regDEFVAL pGpio.nBit nValue defval).2
        let dev := dev.intEnableRegBit pGpio.nBit true
        (retOk, { s with dev, level }.withPin p { pGpio with nValue, nParent })
      else (retOk, { s with dev, level }.withPin p { pGpio with nParent })
  else (retError, s)

/-- `FTE_MCP23S08_GPIO_setDIR`, with the results of its two writes. -/
def setDIR (p : Nat) (nValue : Dir) (first second : Bool) : Ret × State :=
  let nBit := (s.pins p).nBit
  if (s.pins p).pMCP23S08 then
    match nValue with
    | .input =>
      let dev := (s.dev.setRegBit regIODIR nBit true first).2
      (retOk, { s with dev := (dev.setRegBit regGPINTEN nBit true second).2 })
    | .output =>
      let dev := (s.dev.setRegBit regGPINTEN nBit false first).2
      (retOk, { s with dev := (dev.setRegBit regIODIR nBit false second).2 })
    | .noChange => (retError, s)
  else (if nValue = .noChange then retError else retOk, s)

/-- `FTE_MCP23S08_GPIO_INT_setPolarity`. -/
def setPolarity (p : Nat) (nPolarity : UInt8) : State :=
  let pGpio := s.pins p
  { s with dev := { s.dev with
      pPolaries := Function.update s.dev.pPolaries pGpio.nBit nPolarity } }.withPin p
    { pGpio with nPolarity }

/-- `FTE_MCP23S08_GPIO_ISR_set`, with the handler or without one. -/
def setISR (p : Nat) (fISR : Option Nat) : State :=
  let pGpio := s.pins p
  { s with dev := { s.dev with fIsr := Function.update s.dev.fIsr pGpio.nBit (some p) } }.withPin p
    { pGpio with fISR }

/-- `FTE_MCP23S08_GPIO_INT_enable`. -/
def intEnable (p : Nat) (bEnable : Bool) : Ret × State :=
  if (s.pins p).pMCP23S08 then
    (retOk, { s with dev := s.dev.intEnableRegBit (s.pins p).nBit bEnable })
  else (retError, s)

/-- `_FTE_MCP23S08_GPIO_isr` of a pin. -/
def isr (p : Nat) : State × List Event :=
  let pGpio := s.pins p
  (s.withPin p { pGpio with
      nValue := (s.dev.pRegs regGPIO).getLsbD pGpio.nBit
      bINTFlag := true },
    pGpio.fISR.toList.map (Event.handler p))

/-- `bOccured` of a pin whose level is `level` now. -/
def occured (nPolarity : UInt8) (level : Bool) : Bool :=
  match nPolarity.toNat with
  | 1 | 4 => level -- `FTE_MCP23S08_INT_RISING`, `_HIGH`
  | 2 | 3 => !level -- `FTE_MCP23S08_INT_FALLING`, `_LOW`
  | 5 => true
  | _ => false

def fires (nINTFlags : BitVec 8) (i : Fin 8) : Bool :=
  nINTFlags.getLsbD i && occured (s.dev.pPolaries i) ((s.dev.pRegs regGPIO).getLsbD i)

/-- The loop of a poll over the pins with their flags; an entry of `f_isr` that was not set is called
like any other. -/
def service (nINTFlags : BitVec 8) : List (Fin 8) → State → State × List Event
  | [], s => (s, [])
  | i :: bits, s =>
    if s.fires nINTFlags i then
      match s.dev.fIsr i with
      | none => ((service nINTFlags bits s).1, .null i :: (service nINTFlags bits s).2)
      | some p =>
        let (s, es) := s.isr p
        ((service nINTFlags bits s).1, es ++ (service nINTFlags bits s).2)
    else service nINTFlags bits s

/-- `_FTE_MCP23S08_TIMER_done` with the registers read. -/
def poll (regs : Nat → BitVec 8) (defval : Bool) : State × List Event :=
  if s.dev.pRegs regGPIO ≠ regs regGPIO then
    let nINTFlags := (s.dev.pRegs regGPIO ^^^ regs regGPIO) &&& s.dev.nEnableMask &&&
      s.dev.pRegs regGPINTEN
    let dev := { s.dev with pRegs := Function.update s.dev.pRegs regGPIO (regs regGPIO) }
    let dev := (dev.setReg regDEFVAL (regs regGPIO) defval).2
    service nINTFlags (List.finRange 8) { s with dev, level := some (regs regGPIO) }
  else ({ s with level := some (regs regGPIO) }, [])

end State

inductive Action where
  | attach (p : Nat) (nParent : UInt32) (found bus : Bool) (r : Init) (defval : Bool)
  | setDIR (p : Nat) (nValue : Dir) (first second : Bool)
  | setPolarity (p : Nat) (nPolarity : UInt8)
  | setISR (p : Nat) (fISR : Option Nat)
  | intEnable (p : Nat) (bEnable : Bool)
  | poll (regs : Nat → BitVec 8) (defval : Bool)
  | failedPoll

/-- Polarity and handler are set only of a pin that found its expander. -/
def step (s : State) : Action → Option State
  | .attach p nParent found bus r defval => some (s.attach p nParent found bus r defval).2
  | .setDIR p nValue first second => some (s.setDIR p nValue first second).2
  | .setPolarity p nPolarity => if (s.pins p).pMCP23S08 then some (s.setPolarity p nPolarity) else none
  | .setISR p fISR => if (s.pins p).pMCP23S08 then some (s.setISR p fISR) else none
  | .intEnable p bEnable => some (s.intEnable p bEnable).2
  | .poll regs defval => some (s.poll regs defval).1
  | .failedPoll => some s

end Pins

section Attachment

namespace State

variable {s : State} {p : Nat} {nParent : UInt32} {hasDev bus : Bool} {r : Init} {defval : Bool}

/-- The registers that an attachment finds. -/
def found (s : State) (r : Init) : Nat → BitVec 8 := if s.dev.nEnableMask = 0 then r.regs else s.dev.pRegs

/-- Nothing but registers other than the levels and the directions differ, and what a poll looks at in
them. -/
structure Keeps (d d' : Expander) : Prop where
  pParent : d'.pParent = d.pParent
  fIsr : d'.fIsr = d.fIsr
  nEnableMask : d'.nEnableMask = d.nEnableMask
  gpio : d'.pRegs regGPIO = d.pRegs regGPIO
  iodir : d'.pRegs regIODIR = d.pRegs regIODIR

theorem Keeps.refl (d : Expander) : Keeps d d := ⟨rfl, rfl, rfl, rfl, rfl⟩

theorem Keeps.trans {d d' d'' : Expander} (h : Keeps d d') (h' : Keeps d' d'') : Keeps d d'' :=
  ⟨h'.pParent.trans h.pParent, h'.fIsr.trans h.fIsr, h'.nEnableMask.trans h.nEnableMask,
    h'.gpio.trans h.gpio, h'.iodir.trans h.iodir⟩

theorem keeps_setReg (d : Expander) (nReg : Nat) (nValue : BitVec 8) (ok : Bool)
    (hgpio : regGPIO ≠ nReg) (hiodir : regIODIR ≠ nReg) : Keeps d (d.setReg nReg nValue ok).2 := by
  rw [Expander.setReg]
  cases ok with
  | false => exact Keeps.refl d
  | true =>
    exact ⟨rfl, rfl, rfl, Function.update_of_ne hgpio _ _, Function.update_of_ne hiodir _ _⟩

theorem keeps_intEnable (d : Expander) (nBit : Fin 8) (bEnable : Bool) :
    Keeps d (d.intEnableRegBit nBit bEnable) := by
  rw [Expander.intEnableRegBit]
  split
  · exact ⟨rfl, rfl, rfl, rfl, rfl⟩
  · exact Keeps.refl d

/-- The initialisation leaves the levels and the directions as it read them. -/
theorem keeps_init (d : Expander) (r : Init) : Keeps { d with pRegs := r.regs } (d.init r) := by
  rw [Expander.init]
  split
  · have hiocon := keeps_setReg { d with pRegs := r.regs } regIOCON 0x02 r.iocon (by decide)
      (by decide)
    dsimp only
    split
    · have hintcon := hiocon.trans (keeps_setReg _ regINTCON 0xFF r.intcon (by decide) (by decide))
      split
      · exact (hintcon.trans (keeps_setReg _ regDEFVAL _ r.defval (by decide) (by decide))).trans
          (keeps_setReg _ regGPINTEN _ r.gpinten (by decide) (by decide))
      · exact hintcon
    · exact hiocon
  · exact Keeps.refl _

/-- The attachment of a pin goes through. -/
def Attachable (s : State) (p : Nat) (hasDev bus : Bool) : Prop :=
  hasDev = true ∧ s.dev.pParent (s.pins p).nBit = none ∧ (s.dev.nEnableMask = 0 → bus = true)

/-- What it then leaves. -/
structure Attaches (s t : State) (p : Nat) (nParent : UInt32) (r : Init) : Prop where
  pParent : t.dev.pParent = Function.update s.dev.pParent (s.pins p).nBit (some p)
  nEnableMask : t.dev.nEnableMask = setBit s.dev.nEnableMask (s.pins p).nBit true
  fIsr : t.dev.fIsr = s.dev.fIsr
  gpio : t.dev.pRegs regGPIO = s.found r regGPIO
  iodir : t.dev.pRegs regIODIR = s.found r regIODIR
  level : t.level = if s.dev.nEnableMask = 0 ∧ r.read then some (r.regs regGPIO) else s.level
  nBit : ∀ q, (t.pins q).nBit = (s.pins q).nBit
  nParent : ∀ q, (t.pins q).nParent = if q = p then nParent else (s.pins q).nParent
  nValue : ∀ q, (t.pins q).nValue = if q = p ∧ (s.pins p).nDir = .input
    then (s.found r regGPIO).getLsbD (s.pins p).nBit else (s.pins q).nValue

theorem keeps_found (s : State) (r : Init) :
    Keeps { s.dev with pRegs := s.found r } (if s.dev.nEnableMask = 0 then s.dev.init r else s.dev) := by
  rw [found]
  split
  · exact keeps_init s.dev r
  · exact Keeps.refl _

theorem attach_of_attachable (h : s.Attachable p hasDev bus) :
    (s.attach p nParent hasDev bus r defval).1 = retOk ∧
      Attaches s (s.attach p nParent hasDev bus r defval).2 p nParent r := by
  obtain ⟨rfl, hfree, hbus⟩ := h
  have hattach : s.dev.attach p (s.pins p).nBit bus r = (true,
      { (if s.dev.nEnableMask = 0 then s.dev.init r else s.dev) with
        pParent := Function.update (if s.dev.nEnableMask = 0 then s.dev.init r else s.dev).pParent
          (s.pins p).nBit (some p)
        nEnableMask := setBit (if s.dev.nEnableMask = 0 then s.dev.init r else s.dev).nEnableMask
          (s.pins p).nBit true }) := by
    have hgo : ¬ (s.dev.nEnableMask = 0 ∧ ¬ bus = true) := fun h => h.2 (hbus h.1)
    rw [Expander.attach, hfree, if_neg (by decide), if_neg hgo]
  obtain ⟨hparent, hisr, hmask, hgpio, hiodir⟩ := keeps_found s r
  generalize (if s.dev.nEnableMask = 0 then s.dev.init r else s.dev) = d at *
  rw [attach, withPin]
  simp only [if_true, hattach]
  have hpin (q : Nat) (pin pin' : Pin) : Function.update (Function.update s.pins p pin) p pin' q =
      if q = p then pin' else s.pins q := by
    rw [Function.update_idem, Function.update_apply]
  split
  next hdir =>
    have hkeeps : Keeps _ _ := (keeps_setReg { d with
      pParent := Function.update d.pParent (s.pins p).nBit (some p)
      nEnableMask := setBit d.nEnableMask (s.pins p).nBit true } regDEFVAL (setBit (d.pRegs regDEFVAL)
        (s.pins p).nBit ((d.pRegs regGPIO).getLsbD (s.pins p).nBit)) defval (by decide)
        (by decide)).trans (keeps_intEnable _ (s.pins p).nBit true)
    refine ⟨rfl, hkeeps.pParent.trans ?_, hkeeps.nEnableMask.trans ?_, hkeeps.fIsr.trans hisr,
      hkeeps.gpio.trans hgpio, hkeeps.iodir.trans hiodir, rfl, fun q => ?_, fun q => ?_, fun q => ?_⟩
    · dsimp only
      rw [hparent]
    · dsimp only
      rw [hmask]
    · simp only [withPin, hpin]
      split <;> simp [*]
    · simp only [withPin, hpin]
      split <;> rfl
    · simp only [withPin, hpin]
      simp only [hdir, and_true]
      split
      · dsimp only
        rw [hgpio]
      · rfl
  next hdir =>
    refine ⟨rfl, ?_, ?_, hisr, hgpio, hiodir, rfl, fun q => ?_, fun q => ?_, fun q => ?_⟩
    · dsimp only [withPin]
      rw [hparent]
    · dsimp only [withPin]
      rw [hmask]
    · simp only [withPin, hpin]
      split <;> simp [*]
    · simp only [withPin, hpin]
      split <;> rfl
    · simp only [withPin, hpin]
      simp only [hdir, and_false, if_false]
      split <;> simp [*]

theorem attach_of_not_attachable (h : ¬ s.Attachable p hasDev bus) :
    s.attach p nParent hasDev bus r defval =
      (retError, s.withPin p { s.pins p with pMCP23S08 := hasDev }) := by
  rw [attach]
  cases hasDev with
  | false => rfl
  | true =>
    have hattach : s.dev.attach p (s.pins p).nBit bus r = (false, s.dev) := by
      rw [Expander.attach]
      split
      · rfl
      next hfree =>
        have hnone : s.dev.pParent (s.pins p).nBit = none := Option.not_isSome_iff_eq_none.mp hfree
        have hstop : s.dev.nEnableMask = 0 ∧ ¬ bus = true := by
          by_contra hgo
          refine h ⟨rfl, hnone, fun hmask => ?_⟩
          by_contra hbus
          exact hgo ⟨hmask, hbus⟩
        rw [if_pos hstop]
    simp only [if_true, withPin, hattach]

end State

end Attachment

end EdgeNode.Drv.Mcp23s08
