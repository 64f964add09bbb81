import EdgeNode.Drv.Mcp23s08

/-! GPIOs over native ports and over pins of expanders, as they are created, attached and detached. -/

namespace EdgeNode.Drv.Gpios

open Mcp23s08

section Ports

def devTypeLWGPIO : UInt32 := 0x00010000
def devTypeMCP23S08 : UInt32 := 0x00020200

/-- `FTE_DEV_TYPE` -/
def devType (x : UInt32) : UInt32 := x &&& 0xFFFFFF00

/-- The native ports by their IDs, each with its parent. -/
abbrev Lwgpios := UInt32 → Option UInt32

/-- `FTE_LWGPIO_attach` of the port found under `nID`; `init` is the result of `lwgpio_init`. -/
def Lwgpios.attach (ports : Lwgpios) (nID nParent : UInt32) (init : Bool) : Bool × Lwgpios :=
  if init then (true, Function.update ports nID ((ports nID).map fun _ => nParent)) else (false, ports)

/-- `FTE_LWGPIO_detach` of the port found under `nID`. -/
def Lwgpios.detach (ports : Lwgpios) (nID : UInt32) : Lwgpios :=
  if ports nID ≠ some 0 then Function.update ports nID ((ports nID).map fun _ => 0) else ports

/-- `FTE_SPI`; `pCSPort` says whether its chip select was looked up. -/
structure Spi where
  xCSGPIO : UInt32
  pCSPort : Bool

/-- `error` of `FTE_SPI_attach`: a chip select that was looked up is detached. -/
def Spi.release (spi : Spi) (ports : Lwgpios) : Lwgpios :=
  if spi.pCSPort then ports.detach spi.xCSGPIO else ports

/-- `FTE_SPI_detach`, which stops at a chip select that is null. -/
def Spi.detach (spi : Spi) (ports : Lwgpios) : Option Lwgpios :=
  if spi.pCSPort then some (ports.detach spi.xCSGPIO) else none

/-- What the hardware answers in an operation: `lwgpio_init` for each port, whether the channel of the
SPI is or can be opened, and the transfers with an expander. -/
structure Hardware where
  init : UInt32 → Bool
  opened : Bool
  r : Init
  defval : Bool
  first : Bool
  second : Bool

def Hardware.Works (hw : Hardware) : Prop := (∀ nID, hw.init nID = true) ∧ hw.opened = true

/-- `FTE_SPI_attach`. -/
def Spi.attach (spi : Spi) (nID : UInt32) (ports : Lwgpios) (hw : Hardware) : Bool × Spi × Lwgpios :=
  if hw.opened then
    let spi := { spi with pCSPort := (ports spi.xCSGPIO).isSome }
    if spi.pCSPort then
      let (ok, ports) := ports.attach spi.xCSGPIO nID (hw.init spi.xCSGPIO)
      (ok, spi, if ok then ports else spi.release ports)
    else (false, spi, ports)
  else (false, spi, spi.release ports)

/-- `FTE_MCP23S08` with its pins. -/
structure Bank where
  xSPI : UInt32
  xGPIOInt : UInt32
  xGPIOReset : UInt32
  state : State

namespace Bank

variable (bank : Bank)

/-- `error2` of `FTE_MCP23S08_attach`; there is no result where the detachment of the SPI stops. -/
def stop (spi : Spi) (ports : Lwgpios) : Option Bool × Spi × Lwgpios :=
  match spi.detach ports with
  | none => (none, spi, ports)
  | some ports => (some false, spi, (ports.detach bank.xGPIOInt).detach bank.xGPIOReset)

/-- The attachments that `FTE_MCP23S08_attach` makes for the first pin of the expander `nID`. -/
def start (nID : UInt32) (spi : Spi) (ports : Lwgpios) (hw : Hardware) :
    Option Bool × Spi × Lwgpios :=
  let (ok, ports) := ports.attach bank.xGPIOInt nID (hw.init bank.xGPIOInt)
  if ok then
    let (ok, ports) := ports.attach bank.xGPIOReset nID (hw.init bank.xGPIOReset)
    if ok then
      let (ok, spi, ports) := spi.attach bank.xSPI ports hw
      if ok then (some true, spi, ports) else bank.stop spi ports
    else bank.stop spi ports
  else bank.stop spi ports

/-- `pParent` has no entry for the pin. -/
def Free (p : Nat) : Prop := bank.state.dev.pParent (bank.state.pins p).nBit = none

instance (p : Nat) : Decidable (bank.Free p) :=
  inferInstanceAs (Decidable (bank.state.dev.pParent (bank.state.pins p).nBit = none))

/-- The attachment of the pin is the one that starts the expander. -/
def Starts (p : Nat) : Prop := bank.Free p ∧ bank.state.dev.nEnableMask = 0

instance (p : Nat) : Decidable (bank.Starts p) :=
  inferInstanceAs (Decidable (bank.Free p ∧ bank.state.dev.nEnableMask = 0))

end Bank

end Ports

section Gpios

/-- `FTE_GPIO_CONFIG` -/
structure Config where
  nID : UInt32
  nDevID : UInt32
  nDIR : Dir
deriving DecidableEq

inductive Op where
  | attach
  | detach
deriving DecidableEq

/-- `FTE_GPIO` with the ID of its port, and as a ghost the last operation that succeeded. -/
structure Gpio where
  pConfig : Config
  nParent : UInt32
  pPort : Option UInt32
  last : Option Op
deriving DecidableEq

/-- The ports found under an ID; a pin names the expander that it is configured for. -/
inductive Port where
  | lwgpio
  | mcp23s08 (nDrvID : UInt32)
deriving DecidableEq

/-- The GPIOs in the order of their creation, and the ports, SPIs, pins and expanders by their IDs. -/
structure World where
  gpios : List Gpio
  nGPIOs : UInt32
  lwgpios : Lwgpios
  spis : UInt32 → Option Spi
  pins : UInt32 → Option UInt32
  banks : UInt32 → Option Bank

namespace World

variable (w : World)

def withBank (nDrvID : UInt32) (bank : Bank) : World :=
  { w with banks := Function.update w.banks nDrvID (some bank) }

/-- `FTE_LWGPIO_get` and `FTE_MCP23S08_GPIO_get`. -/
def port (nDevID : UInt32) : Option Port :=
  if devType nDevID = devTypeLWGPIO then (w.lwgpios nDevID).map fun _ => .lwgpio
  else if devType nDevID = devTypeMCP23S08 then (w.pins nDevID).map .mcp23s08
  else none

/-- The start of an expander in `FTE_MCP23S08_attach`, with its lookups. -/
def start (nDrvID : UInt32) (bank : Bank) (hw : Hardware) : Option Bool × World :=
  match w.spis bank.xSPI with
  | none => (some false, w)
  | some spi =>
    if (w.lwgpios bank.xGPIOInt).isSome ∧ (w.lwgpios bank.xGPIOReset).isSome then
      let (ok, spi, lwgpios) := bank.start nDrvID spi w.lwgpios hw
      (ok, { w with lwgpios, spis := Function.update w.spis bank.xSPI (some spi) })
    else (some false, w)

/-- `FTE_MCP23S08_GPIO_attach` of the pin found under `nDevID`. -/
def pinAttach (nDevID nDrvID nParent : UInt32) (hw : Hardware) : Option Ret × World :=
  match w.banks nDrvID with
  | none => (some retError, w)
  | some bank =>
    match if bank.Starts nDevID.toNat then w.start nDrvID bank hw else (some true, w) with
    | (none, w) => (none, w)
    | (some bus, w) =>
      let (ret, state) := bank.state.attach nDevID.toNat nParent true bus hw.r hw.defval
      (some ret, w.withBank nDrvID { bank with state })

def portAttach (nDevID nParent : UInt32) (hw : Hardware) : Port → Option Ret × World
  | .lwgpio =>
    let (ok, lwgpios) := w.lwgpios.attach nDevID nParent (hw.init nDevID)
    (some (if ok then retOk else retError), { w with lwgpios })
  | .mcp23s08 nDrvID => w.pinAttach nDevID nDrvID nParent hw

/-- The direction of a pin; that of a native port is the hardware's alone. -/
def setDIR (nDevID : UInt32) (nDIR : Dir) (hw : Hardware) : Port → World
  | .lwgpio => w
  | .mcp23s08 nDrvID =>
    match w.banks nDrvID with
    | none => w
    | some bank => w.withBank nDrvID
        { bank with state := (bank.state.setDIR nDevID.toNat nDIR hw.first hw.second).2 }

/-- `FTE_GPIO_create`; `alloc` says whether there is memory. -/
def create (pConfig : Config) (alloc : Bool) : Ret × World :=
  if alloc then
    (retOk, { w with gpios := w.gpios ++ [⟨pConfig, 0, none, none⟩], nGPIOs := w.nGPIOs + 1 })
  else (retNotEnoughMemory, w)

/-- `FTE_GPIO_attach` of `pGpio`, the GPIO `k`. -/
def attach (k : Nat) (pGpio : Gpio) (nParent : UInt32) (hw : Hardware) : Option Ret × World :=
  let nDevID := pGpio.pConfig.nDevID
  match w.port nDevID with
  | none => (some retError, w)
  | some port =>
    let (ret, w) := w.portAttach nDevID pGpio.pConfig.nID hw port
    if ret = some retOk then
      let w := w.setDIR nDevID pGpio.pConfig.nDIR hw port
      (some retOk, { w with gpios := w.gpios.set k { pGpio with
        nParent, pPort := some nDevID, last := some .attach } })
    else (ret.map fun _ => retError, w)

/-- `FTE_GPIO_detach`, which attaches the port under the ID of the GPIO. -/
def detach (k : Nat) (pGpio : Gpio) (hw : Hardware) : Option Ret × World :=
  let nDevID := pGpio.pConfig.nDevID
  match w.port nDevID with
  | none => (some retError, w)
  | some port =>
    match w.portAttach nDevID pGpio.pConfig.nID hw port with
    | (none, w) => (none, w)
    | (some _, w) => (some retOk, { w with
        gpios := w.gpios.set k { pGpio with nParent := 0, last := some .detach }
        nGPIOs := w.nGPIOs - 1 })

/-- `FTE_GPIO_count` -/
def count : UInt32 := w.nGPIOs

end World

inductive Action where
  | create (pConfig : Config) (alloc : Bool)
  | attach (k : Nat) (nParent : UInt32) (hw : Hardware)
  | detach (k : Nat) (hw : Hardware)

/-- A GPIO has 16 bytes, so that 32 bit addresses have no room for 2 ^ 28 of them. -/
def step (w : World) : Action → Option World
  | .create pConfig alloc =>
    if alloc = true → w.gpios.length + 1 < 2 ^ 28 then some (w.create pConfig alloc).2 else none
  | .attach k nParent hw => w.gpios[k]?.map fun pGpio => (w.attach k pGpio nParent hw).2
  | .detach k hw => w.gpios[k]?.map fun pGpio => (w.detach k pGpio hw).2

end Gpios

section Specification

/-- The parent of a pin while it stands in the table of its expander. -/
def Bank.owner (bank : Bank) (p : Nat) : Option UInt32 :=
  if bank.state.dev.pParent (bank.state.pins p).nBit = some p then some (bank.state.pins p).nParent
  else none

namespace World

variable (w : World)

/-- The owner of a port. -/
def owner (nDevID : UInt32) : Option UInt32 :=
  (w.port nDevID).bind fun
  | .lwgpio => w.lwgpios nDevID
  | .mcp23s08 nDrvID => (w.banks nDrvID).bind fun bank => bank.owner nDevID.toNat

def Owns (pGpio : Gpio) : Prop := w.owner pGpio.pConfig.nDevID = some pGpio.pConfig.nID

instance (pGpio : Gpio) : Decidable (w.Owns pGpio) :=
  inferInstanceAs (Decidable (w.owner pGpio.pConfig.nDevID = some pGpio.pConfig.nID))

/-- Ports are owned by the GPIOs whose last operation was attach, a detached GPIO can be attached again,
and the count is that of the GPIOs. -/
structure Owned : Prop where
  owns : ∀ (k : Nat) (pGpio : Gpio), w.gpios[k]? = some pGpio → (w.Owns pGpio ↔ pGpio.last = some .attach)
  again : ∀ (k : Nat) (pGpio : Gpio), w.gpios[k]? = some pGpio → pGpio.last = some .detach →
    ∀ nParent hw, hw.Works → (w.attach k pGpio nParent hw).1 = some retOk
  count : w.count.toNat = w.gpios.length

/-- Nothing keeps the port from being attached: the hardware of a native one works, and a pin does not
stand in the table of its expander. -/
def Attachable (nDevID : UInt32) (hw : Hardware) : Prop :=
  match w.port nDevID with
  | none => False
  | some .lwgpio => hw.init nDevID = true
  | some (.mcp23s08 nDrvID) => ∃ bank, w.banks nDrvID = some bank ∧ bank.Free nDevID.toNat

/-- The native ports that an expander attaches for itself when the pin `nDevID` starts it, with the
parents that they can get so. -/
def own (nDevID : UInt32) : List UInt32 × List UInt32 :=
  match w.port nDevID with
  | some (.mcp23s08 nDrvID) =>
    match w.banks nDrvID with
    | some bank =>
      if bank.Starts nDevID.toNat then
        (bank.xGPIOInt :: bank.xGPIOReset :: ((w.spis bank.xSPI).map Spi.xCSGPIO).toList,
          [0, nDrvID, bank.xSPI])
      else ([], [])
    | none => ([], [])
  | _ => ([], [])

/-- A GPIO is created under an ID that its port does not have for a parent. When a port can be attached,
its other GPIOs with the ID of the new owner are those that are attached; and no GPIO is attached to, or
has for its ID a parent of, a port that an expander attaches for itself. No detachment finds a port. -/
def Allowed : Action → Prop
  | .create pConfig alloc => alloc = true → w.owner pConfig.nDevID ≠ some pConfig.nID
  | .attach k _ hw => ∀ pGpio, w.gpios[k]? = some pGpio → ∀ (j : Nat) pGpio', w.gpios[j]? = some pGpio' →
    (j ≠ k → pGpio'.pConfig.nDevID = pGpio.pConfig.nDevID →
      w.Attachable pGpio.pConfig.nDevID hw →
        (pGpio'.pConfig.nID = pGpio.pConfig.nID ↔ pGpio'.last = some .attach)) ∧
    (pGpio'.pConfig.nDevID ∈ (w.own pGpio.pConfig.nDevID).1 →
      pGpio'.last ≠ some .attach ∧ pGpio'.pConfig.nID ∉ (w.own pGpio.pConfig.nDevID).2)
  | .detach k _ => ∀ pGpio, w.gpios[k]? = some pGpio → w.port pGpio.pConfig.nDevID = none

def Start : Prop := w.gpios = [] ∧ w.nGPIOs = 0

end World

end Specification

end EdgeNode.Drv.Gpios
