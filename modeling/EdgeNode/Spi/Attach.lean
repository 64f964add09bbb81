import EdgeNode.Types
import Mathlib.Data.Finset.Basic

/-! Attaching and detaching the SPI devices through the drivers of the flash, the port expanders and
the converters: who owns the channels and the pins. -/

namespace EdgeNode.Spi

/-- `FTE_SPI`, known by its configuration. -/
structure SpiDevice where
  nID : UInt32
  xPort : Nat
  xCSGPIO : UInt32
  deriving DecidableEq

structure SpiChannel where
  xFD : Bool
  nCount : UInt32
  deriving DecidableEq

/-- `FTE_M25P16_CONFIG`, `FTE_MCP23S08_CONFIG`: the SPI device and the two pins. -/
structure ChipConfig where
  xSPI : UInt32
  pin₁ : UInt32
  pin₂ : UInt32

/-- What was created when the system started. The pins are known by their identifiers; of a port
expander's pin there is its bit, of a converter its SPI device. -/
structure BoardConfig where
  spi : UInt32 → Option SpiDevice
  lwgpio : UInt32 → Bool
  m25p16 : UInt32 → ChipConfig
  mcp23s08 : UInt32 → ChipConfig
  mcp23s08Gpio : UInt32 → Option (Fin 8)
  ad7785 : UInt32 → Option UInt32

structure M25p16 where
  pSPI : Option SpiDevice
  pHold : Option UInt32
  pWP : Option UInt32

structure Mcp23s08 where
  pParent : Fin 8 → UInt32
  nEnableMask : UInt8
  pSPI : Option SpiDevice
  pLWGPIO : Option UInt32
  pLWGPIO_Reset : Option UInt32

structure Ad7785 where
  pSPI : Option SpiDevice
  nParent : UInt32

/-- The owner of each pin is its `nParent`. In `attached` are the SPI devices whose attach returned
OK and that were not detached since; `pStatus` says which objects still have their status. -/
structure Board where
  channel : Nat → SpiChannel
  pin : UInt32 → UInt32
  pCSPort : SpiDevice → Option UInt32
  nParent : SpiDevice → UInt32
  m25p16 : UInt32 → M25p16
  mcp23s08 : UInt32 → Mcp23s08
  ad7785 : UInt32 → Ad7785
  pStatus : UInt32 → Bool
  rtds : List UInt32
  attached : Finset SpiDevice

/-- How the calls of an attach end: the driver's file, the lock and the requests to the driver, and
the pins that can be initialised. -/
structure AttachCalls where
  fopen : Bool
  lock : Bool
  ioctl : Fin 4 → Bool
  lwgpioInit : UInt32 → Bool

def retInitializeFailed : Ret := 0x8F

namespace Board

/-! A call answers with no code when an assertion or a null pointer stops it. -/

variable (k : BoardConfig) (b : Board)

def start : Board where
  channel _ := ⟨false, 0⟩
  pin _ := 0
  pCSPort _ := none
  nParent _ := 0
  m25p16 _ := ⟨none, none, none⟩
  mcp23s08 _ := ⟨fun _ => 0, 0, none, none, none⟩
  ad7785 _ := ⟨none, 0⟩
  pStatus _ := true
  rtds := []
  attached := ∅

def withChannel (xPort : Nat) (channel : SpiChannel) : Board :=
  { b with channel := Function.update b.channel xPort channel }

def withPin ( pLWGPIO nParent : UInt32) : Board :=
  { b with pin := Function.update b.pin pLWGPIO nParent }

section Pins

def lwgpioGet (nID : UInt32) : Option UInt32 := if k.lwgpio nID then some nID else none

def lwgpioAttach ( pLWGPIO nParent : UInt32) (c : AttachCalls) : Ret × Board :=
  if c.lwgpioInit pLWGPIO then (retOk, b.withPin pLWGPIO nParent) else (retInitializeFailed, b)

def lwgpioDetach ( pLWGPIO : UInt32) : Ret × Board :=
  if b.pin pLWGPIO ≠ 0 then (retOk, b.withPin pLWGPIO 0) else (retError, b)

end Pins

section Spi

variable (pSPI : SpiDevice)

/-- The channel is opened, or counted once more. -/
def openChannel (c : AttachCalls) : Bool × Board :=
  let channel := b.channel pSPI.xPort
  if channel.xFD then (true, b.withChannel pSPI.xPort { channel with nCount := channel.nCount + 1 })
  else if c.fopen then
    if c.lock ∧ ∀ i, c.ioctl i then (true, b.withChannel pSPI.xPort ⟨true, 1⟩)
    else (false, b.withChannel pSPI.xPort { channel with xFD := true })
  else (false, b)

/-- The error path: the file is closed, and the port of the chip select given back. -/
def spiError : Ret × Board :=
  let b := b.withChannel pSPI.xPort { b.channel pSPI.xPort with xFD := false }
  match b.pCSPort pSPI with
  | some pCSPort => (retError, (b.lwgpioDetach pCSPort).2)
  | none => (retError, b)

def withCSPort (pCSPort : Option UInt32) : Board :=
  { b with pCSPort := Function.update b.pCSPort pSPI pCSPort }

def withOwner (nParent : UInt32) : Board :=
  { b with nParent := Function.update b.nParent pSPI nParent }

def spiAttach (nParent : UInt32) (c : AttachCalls) : Ret × Board :=
  match b.openChannel pSPI c with
  | (false, b) => b.spiError pSPI
  | (true, b) =>
    let b := b.withCSPort pSPI (lwgpioGet k pSPI.xCSGPIO)
    match b.pCSPort pSPI with
    | none => b.spiError pSPI
    | some pCSPort =>
      let (xRet, b) := b.lwgpioAttach pCSPort pSPI.nID c
      if xRet ≠ retOk then b.spiError pSPI
      else (retOk, { b.withOwner pSPI nParent with attached := insert pSPI b.attached })

def spiDetach : Option Ret × Board :=
  let channel := b.channel pSPI.xPort
  let b := b.withChannel pSPI.xPort
    (if channel.nCount = 1 then ⟨false, 0⟩ else { channel with nCount := channel.nCount - 1 })
  match b.pCSPort pSPI with
  | none => (none, b)
  | some pCSPort =>
    let (_, b) := b.lwgpioDetach pCSPort
    (some retOk, { b.withOwner pSPI 0 with attached := b.attached.erase pSPI })

end Spi

section Chips

/-! `FTE_M25P16_attach` and `FTE_MCP23S08_attach` look for an SPI device and two pins, and attach to the
pins before the device. -/

def lookup (config : ChipConfig) : Option (SpiDevice × UInt32 × UInt32) := do
  let pSPI ← k.spi config.xSPI
  let pin₁ ← lwgpioGet k config.pin₁
  let pin₂ ← lwgpioGet k config.pin₂
  some (pSPI, pin₁, pin₂)

/-- Whatever has failed, everything is detached. -/
def chipError (pSPI : SpiDevice) (pin₁ pin₂ : UInt32) : Option Ret × Board :=
  match b.spiDetach pSPI with
  | (none, b) => (none, b)
  | (some _, b) => (some retError, ((b.lwgpioDetach pin₁).2.lwgpioDetach pin₂).2)

def chipAttach (nID : UInt32) (pSPI : SpiDevice) (pin₁ pin₂ : UInt32) (c : AttachCalls) :
    Option Ret × Board :=
  let (xRet, b) := b.lwgpioAttach pin₁ nID c
  if xRet ≠ retOk then b.chipError pSPI pin₁ pin₂
  else
    let (xRet, b) := b.lwgpioAttach pin₂ nID c
    if xRet ≠ retOk then b.chipError pSPI pin₁ pin₂
    else
      let (xRet, b) := b.spiAttach k pSPI nID c
      if xRet ≠ retOk then b.chipError pSPI pin₁ pin₂ else (some retOk, b)

/-- The detach of two pins; one that is null stops it. -/
def pinsDetach : Option UInt32 → Option UInt32 → Option Ret × Board
  | some pin₁, some pin₂ => (some retOk, ((b.lwgpioDetach pin₁).2.lwgpioDetach pin₂).2)
  | some pin₁, none => (none, (b.lwgpioDetach pin₁).2)
  | none, _ => (none, b)

def chipDetach (pSPI : Option SpiDevice) (pin₁ pin₂ : Option UInt32) : Option Ret × Board :=
  match pSPI with
  | none => (none, b)
  | some pSPI =>
    match b.spiDetach pSPI with
    | (none, b) => (none, b)
    | (some _, b) => b.pinsDetach pin₁ pin₂

section M25p16

variable (nID : UInt32)

def m25p16Attach (c : AttachCalls) : Option Ret × Board :=
  match lookup k (k.m25p16 nID) with
  | none => (some retError, b)
  | some (pSPI, pHold, pWP) =>
    let (xRet, b) := b.chipAttach k nID pSPI pHold pWP c
    if xRet = some retOk then
      (some retOk, { b with m25p16 := Function.update b.m25p16 nID ⟨some pSPI, some pHold, some pWP⟩ })
    else (xRet, b)

def m25p16Detach : Option Ret × Board :=
  let chip := b.m25p16 nID
  let (xRet, b) := b.chipDetach chip.pSPI chip.pHold chip.pWP
  if xRet = some retOk then
    (some retOk, { b with m25p16 := Function.update b.m25p16 nID ⟨none, none, none⟩ })
  else (xRet, b)

end M25p16

section Mcp23s08

variable (nID nParent : UInt32)

/-- The pin of the expander is taken. -/
def withBit (nBit : Fin 8) (nOwner : UInt32) (nEnableMask : UInt8) : Board :=
  let chip := b.mcp23s08 nID
  let pParent := Function.update chip.pParent nBit nOwner
  { b with mcp23s08 := Function.update b.mcp23s08 nID { chip with pParent, nEnableMask } }

def withChip (pSPI : Option SpiDevice) ( pLWGPIO pLWGPIO_Reset : Option UInt32) : Board :=
  let chip := { b.mcp23s08 nID with pSPI, pLWGPIO, pLWGPIO_Reset }
  { b with mcp23s08 := Function.update b.mcp23s08 nID chip }

/-- The first of the expander's pins brings the chip. -/
def mcp23s08Attach (c : AttachCalls) : Option Ret × Board :=
  match k.mcp23s08Gpio nParent with
  | none => (some retError, b)
  | some nBit =>
    let nEnableMask := (b.mcp23s08 nID).nEnableMask ||| (1 <<< UInt8.ofNat nBit.val)
    if (b.mcp23s08 nID).pParent nBit ≠ 0 then (some retError, b)
    else if (b.mcp23s08 nID).nEnableMask = 0 then
      match lookup k (k.mcp23s08 nID) with
      | none => (some retError, b)
      | some (pSPI, pLWGPIO, pLWGPIO_Reset) =>
        let (xRet, b) := b.chipAttach k nID pSPI pLWGPIO pLWGPIO_Reset c
        if xRet = some retOk then
          let b := b.withChip nID (some pSPI) (some pLWGPIO) (some pLWGPIO_Reset)
          (some retOk, b.withBit nID nBit nParent nEnableMask)
        else (xRet, b)
    else (some retOk, b.withBit nID nBit nParent nEnableMask)

def mcp23s08Detach : Option Ret × Board :=
  match k.mcp23s08Gpio nParent with
  | none => (some retError, b)
  | some nBit =>
    let b := b.withBit nID nBit 0 ((b.mcp23s08 nID).nEnableMask &&& ~~~(1 <<< UInt8.ofNat nBit.val))
    let chip := b.mcp23s08 nID
    if chip.nEnableMask = 0 then
      let (xRet, b) := b.chipDetach chip.pSPI (Mcp23s08.pLWGPIO chip) chip.pLWGPIO_Reset
      if xRet = some retOk then
        (some retOk, b.withChip nID none none none)
      else (xRet, b)
    else (some retOk, b)

end Mcp23s08

end Chips

section Ad7785

variable (nID : UInt32)

def withConverter (adc : Ad7785) : Board :=
  { b with ad7785 := Function.update b.ad7785 nID adc }

def ad7785Attach (nParent : UInt32) (c : AttachCalls) : Ret × Board :=
  let pSPI := do k.spi (← k.ad7785 nID)
  let b := b.withConverter nID { b.ad7785 nID with pSPI }
  match pSPI with
  | none => (retNotEnoughMemory, b)
  | some pSPI =>
    let (xRet, b) := b.spiAttach k pSPI nID c
    if xRet = retOk then (retOk, b.withConverter nID { b.ad7785 nID with nParent }) else (xRet, b)

def ad7785Detach : Option Ret × Board :=
  match (b.ad7785 nID).pSPI with
  | none => (none, b)
  | some pSPI =>
    let (xRet, b) := b.spiDetach pSPI
    if xRet = some retOk then (xRet, b.withConverter nID { b.ad7785 nID with nParent := 0 })
    else (xRet, b)

end Ad7785

section Rtd

variable (pObj nDevID : UInt32)

/-- The error path of `FTE_RTD_attach`, where nobody asks what was attached. -/
def rtdError : Option Ret × Board :=
  if b.pStatus pObj then
    match b.ad7785Detach nDevID with
    | (none, b) => (none, b)
    | (some _, b) => (some retError, { b with pStatus := Function.update b.pStatus pObj false })
  else (some retError, b)

/-- `FTE_RTD_attach`: `value` says whether there is memory for the value, and `node` for the list of
objects. Without the converter the error path has a null pointer. -/
def rtdAttach (value : Bool) (init : Ret) (node : Bool) (c : AttachCalls) : Option Ret × Board :=
  match k.ad7785 nDevID with
  | none => if b.pStatus pObj then (none, b) else (some retError, b)
  | some _ =>
    let (xRet, b) := b.ad7785Attach k nDevID pObj c
    if xRet ≠ retOk then b.rtdError pObj nDevID
    else if b.pStatus pObj = false then (none, b)
    else if value then
      if init ≠ retOk then
        match b.ad7785Detach nDevID with
        | (none, b) => (none, b)
        | (some _, b) => b.rtdError pObj nDevID
      else (some retOk, if node then { b with rtds := b.rtds ++ [pObj] } else b)
    else b.rtdError pObj nDevID

/-- The converter stays attached. -/
def rtdDetach : Ret × Board :=
  if pObj ∈ b.rtds then (retOk, { b with rtds := b.rtds.erase pObj }) else (retError, b)

end Rtd

end Board

end EdgeNode.Spi
