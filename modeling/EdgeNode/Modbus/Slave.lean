import EdgeNode.Modbus.Registers

/-! `FTE_MODBUS_SLAVE_process`: one request PDU in the receive memory, one response
PDU in the response buffer, and the response length stored through `pRespPDULen`. -/

namespace EdgeNode.Modbus

open BufferAccess

def maxCoils : Nat := 2000
def maxHoldingRegisters : Nat := 125

variable {ω υ η : Type}

/-- The result code and the length stored through `pRespPDULen`, if the branch stores one. -/
abbrev Reply := Ret × Option Nat

/-- `FTE_MODBUS_SLAVE_MODEL`: a callback may be absent. The bit callbacks fill a zeroed buffer. -/
structure SlaveModel (ω υ η : Type) where
  fReadCoils : Option (UInt16 → UInt16 → List UInt8 → Device ω η → (Ret × List UInt8) × Device ω η)
  fReadDiscreteInputs :
    Option (UInt16 → UInt16 → List UInt8 → Device ω η → (Ret × List UInt8) × Device ω η)
  fReadHoldingRegisters :
    Option (UInt16 → Nat → Device ω η → (Ret × List UInt16) × Device ω η)
  fReadInputRegisters : Option (UInt16 → Nat → Device ω η → (Ret × List UInt16) × Device ω η)
  fWriteSingleCoil : Option (UInt16 → UInt16 → Ret)
  fWriteSingleRegister : Option (UInt16 → UInt16 → Device ω η → Ret × Device ω η)
  fWriteMultiCoils : Option (UInt16 → UInt16 → Nat → Access (Device ω η) Ret)
  fWriteMultiRegisters : Option (UInt16 → List UInt16 → Device ω η → Ret × Device ω η)
  fReadDeviceIdent : Option (UInt8 → UInt8 → UInt8 → Nat → Ret × DeviceIdent)

/-- `pModels[0]`, which leaves `fWriteSingleCoil` out. -/
def generalModel (fw : Firmware ω υ η) : SlaveModel ω υ η where
  fReadCoils := some fun _ _ pBuff d => ((retOk, pBuff), d)
  fReadDiscreteInputs := some fun _ _ pBuff d => ((retOk, pBuff), d)
  fReadHoldingRegisters := some (readHoldingRegisters fw)
  fReadInputRegisters := some fun a k d => (readInputRegisters fw a d k, d)
  fWriteSingleCoil := none
  fWriteSingleRegister := some (writeSingleRegister fw)
  fWriteMultiCoils := some writeMultiCoils
  fWriteMultiRegisters := some (writeMultiRegisters fw)
  fReadDeviceIdent := some readDeviceIdent

section Branch

variable (fw : Firmware ω υ η) (model : SlaveModel ω υ η) (ulReqFrameLen ulRespBuffLen : Nat)

def peekWord {σ : Type} (i : Nat) : Access σ UInt16 := do
  let hi ← peek i
  let lo ← peek (i + 1)
  pure (ntohs hi lo)

/-- The 16-bit fields of a byte string in network order. -/
def words : List UInt8 → List UInt16
  | hi :: lo :: bs => ntohs hi lo :: words bs
  | _ => []

def alloc {α : Type} (ulSize : Nat) (p : Access (Device ω η) (Ret × Option α)) :
    Access (Device ω η) (Ret × Option α) := do
  let ok ← call fun d => ((fw.allocZero ulSize d.kernel).1,
    { d with kernel := (fw.allocZero ulSize d.kernel).2 })
  if ok then p else pure (retNotEnoughMemory, none)

/-- The branches `READ_COILS` and `READ_DISCRETE_INPUTS`. -/
def processReadBits
    (fRead : Option (UInt16 → UInt16 → List UInt8 → Device ω η → (Ret × List UInt8) × Device ω η)) :
    Access (Device ω η) Reply :=
  if ulReqFrameLen ≠ 5 then pure (retInvalidMsg, none)
  else do
    let usAddress ← peekWord 1
    let usQuantity ← peekWord 3
    if usQuantity.toNat < 1 ∨ maxCoils < usQuantity.toNat then pure (retInvalidMsg, none)
    else
      let ucByteCount := (usQuantity.toNat + 7) / 8 % 256
      if ulRespBuffLen < 2 + ucByteCount then pure (retBufferTooSmall, none)
      else alloc fw ucByteCount do
        match fRead with
        | none => pure (retModbusInvalidFunction, none)
        | some f =>
          let (xRet, pStatus) ←
            call fun d => f usAddress usQuantity (List.replicate ucByteCount 0) d
          if xRet ≠ retOk then pure (xRet, none)
          else
            let fc ← peek 0
            poke 0 fc
            poke 1 (UInt8.ofNat ucByteCount)
            pokeBytes 2 (pStatus.take ucByteCount)
            pure (retOk, some (2 + ucByteCount))

/-- The branches `READ_HOLDING_REGISTERS` and `READ_INPUT_REGISTERS`. -/
def processReadRegisters
    (fRead : Option (UInt16 → Nat → Device ω η → (Ret × List UInt16) × Device ω η)) :
    Access (Device ω η) Reply :=
  if ulReqFrameLen ≠ 5 then pure (retInvalidMsg, none)
  else do
    let usAddress ← peekWord 1
    let usQuantity ← peekWord 3
    if usQuantity.toNat < 1 ∨ maxHoldingRegisters < usQuantity.toNat then
      pure (retInvalidMsg, none)
    else if ulRespBuffLen < 2 + usQuantity.toNat * 2 then pure (retBufferTooSmall, none)
    else alloc fw (2 * usQuantity.toNat) do
      match fRead with
      | none => pure (retModbusInvalidFunction, none)
      | some f =>
        let (xRet, pRegisters) ← call (f usAddress usQuantity.toNat)
        if xRet ≠ retOk then pure (xRet, none)
        else
          let fc ← peek 0
          poke 0 fc
          poke 1 (UInt8.ofNat (usQuantity.toNat * 2))
          pokeBytes 2 ((pRegisters.take usQuantity.toNat).flatMap htons)
          pure (retOk, some (2 + usQuantity.toNat * 2))

/-- Echo of address and value, the reply of every write branch. -/
def replyEcho (usAddress usValue : UInt16) : Access (Device ω η) Reply := do
  let fc ← peek 0
  poke 0 fc
  pokeBytes 1 (htons usAddress)
  pokeBytes 3 (htons usValue)
  pure (retOk, some 5)

/-- The branches `WRITE_SINGLE_COIL` and `WRITE_SINGLE_REGISTER`. -/
def processWriteSingle
    (fWrite : Option (UInt16 → UInt16 → Device ω η → Ret × Device ω η)) :
    Access (Device ω η) Reply :=
  if ulReqFrameLen ≠ 5 then pure (retInvalidMsg, none)
  else do
    let usAddress ← peekWord 1
    let usValue ← peekWord 3
    if ulRespBuffLen < 5 then pure (retBufferTooSmall, none)
    else match fWrite with
      | none => pure (retModbusInvalidFunction, none)
      | some f =>
        let xRet ← call (f usAddress usValue)
        if xRet ≠ retOk then pure (xRet, none) else replyEcho usAddress usValue

def processWriteMultiCoils : Access (Device ω η) Reply :=
  if ulReqFrameLen ≤ 6 then pure (retInvalidMsg, none)
  else do
    let usAddress ← peekWord 1
    let usQuantity ← peekWord 3
    let ucByteCount ← peek 5
    if ulReqFrameLen ≠ 6 + ucByteCount.toNat then pure (retInvalidMsg, none)
    else if ulRespBuffLen < 5 then pure (retBufferTooSmall, none)
    else match model.fWriteMultiCoils with
      | none => pure (retModbusInvalidFunction, none)
      | some f =>
        let xRet ← f usAddress usQuantity 6
        if xRet ≠ retOk then pure (xRet, none) else replyEcho usAddress usQuantity

def processWriteMultiRegisters : Access (Device ω η) Reply :=
  if ulReqFrameLen ≤ 6 then pure (retInvalidMsg, none)
  else do
    let usAddress ← peekWord 1
    let usQuantity ← peekWord 3
    let ucByteCount ← peek 5
    if ulReqFrameLen ≠ 6 + ucByteCount.toNat then pure (retInvalidMsg, none)
    else if ulRespBuffLen < 5 then pure (retBufferTooSmall, none)
    else alloc fw (2 * usQuantity.toNat) do
      let bs ← peekBytes 6 (2 * usQuantity.toNat)
      match model.fWriteMultiRegisters with
      | none => pure (retModbusInvalidFunction, none)
      | some f =>
        let xRet ← call (f usAddress (words bs))
        if xRet ≠ retOk then pure (xRet, none) else replyEcho usAddress usQuantity

/-- The second half of `WRITE_READ_MULTI_REGISTERS`, after the write succeeded. -/
def processReadBack (usReadAddress usReadQuantity : UInt16) : Access (Device ω η) Reply :=
  alloc fw (2 * usReadQuantity.toNat) do
    match model.fReadInputRegisters with
    | none => pure (retModbusInvalidFunction, none)
    | some f =>
      let (xRet, pReadValues) ← call (f usReadAddress usReadQuantity.toNat)
      if xRet ≠ retOk then pure (xRet, none)
      else
        let fc ← peek 0
        poke 0 fc
        poke 1 (UInt8.ofNat (usReadQuantity.toNat * 2))
        pokeBytes 2 ((pReadValues.take usReadQuantity.toNat).flatMap htons)
        pure (retOk, some (2 + usReadQuantity.toNat * 2))

/-- The values are taken at the offset of `xWriteMultiRegisters`, 6, not at 10. -/
def processWriteReadMultiRegisters : Access (Device ω η) Reply :=
  if ulReqFrameLen ≤ 10 then pure (retInvalidMsg, none)
  else do
    let usWriteAddress ← peekWord 5
    let usWriteQuantity ← peekWord 7
    let ucByteCount ← peek 9
    let usReadAddress ← peekWord 1
    let usReadQuantity ← peekWord 3
    if ulReqFrameLen ≠ 10 + ucByteCount.toNat then pure (retInvalidMsg, none)
    else if ulRespBuffLen < 2 then pure (retBufferTooSmall, none)
    else alloc fw (2 * usWriteQuantity.toNat) do
      let bs ← peekBytes 6 (2 * usWriteQuantity.toNat)
      match model.fWriteMultiRegisters with
      | none => pure (retModbusInvalidFunction, none)
      | some f =>
        let xRet ← call (f usWriteAddress (words bs))
        if xRet ≠ retOk then pure (xRet, none)
        else processReadBack fw model usReadAddress usReadQuantity

/-- The object list as it is copied from `pValues`: identifier, length, text. -/
def identBytes (values : List (UInt8 × List UInt8)) : List UInt8 :=
  values.flatMap fun v => v.1 :: UInt8.ofNat v.2.length :: v.2

def processReadDeviceIdent : Access (Device ω η) Reply :=
  if ulReqFrameLen ≤ 4 then pure (retInvalidMsg, none)
  else do
    let ucMEIType ← peek 1
    let ucDeviceIDCode ← peek 2
    let ucObjectID ← peek 3
    match model.fReadDeviceIdent with
    | none => pure (retModbusInvalidFunction, none)
    | some f =>
      let (xRet, xIdent) := f ucMEIType ucDeviceIDCode ucObjectID 3
      if xRet ≠ retOk then pure (xRet, none)
      else
        let nPos := (identBytes xIdent.values).length
        if ulRespBuffLen < 7 + nPos then pure (retBufferTooSmall, none)
        else
          let fc ← peek 0
          pokeBytes 0 [fc, ucMEIType, ucDeviceIDCode, xIdent.ucConformityLevel,
            xIdent.ucMoreFollows, xIdent.ucNextObjectID, UInt8.ofNat xIdent.values.length]
          pokeBytes 7 (identBytes xIdent.values)
          pure (retOk, some (7 + nPos))

/-- The switch. Its default stores the exception code 1, not `FTE_RET_MODBUS_INVALID_FUNCTION`. -/
def processFunction (ucFunctionCode : UInt8) : Access (Device ω η) Reply :=
  match ucFunctionCode.toNat with
  | 1 => processReadBits fw ulReqFrameLen ulRespBuffLen model.fReadCoils
  | 2 => processReadBits fw ulReqFrameLen ulRespBuffLen model.fReadDiscreteInputs
  | 3 => processReadRegisters fw ulReqFrameLen ulRespBuffLen model.fReadHoldingRegisters
  | 4 => processReadRegisters fw ulReqFrameLen ulRespBuffLen model.fReadInputRegisters
  | 5 => processWriteSingle ulReqFrameLen ulRespBuffLen
      (model.fWriteSingleCoil.map fun f a v d => (f a v, d))
  | 6 => processWriteSingle ulReqFrameLen ulRespBuffLen model.fWriteSingleRegister
  | 15 => processWriteMultiCoils model ulReqFrameLen ulRespBuffLen
  | 16 => processWriteMultiRegisters fw model ulReqFrameLen ulRespBuffLen
  | 23 => processWriteReadMultiRegisters fw model ulReqFrameLen ulRespBuffLen
  | 43 => processReadDeviceIdent model ulReqFrameLen ulRespBuffLen
  | _ => pure (1, none)

def isException (xRet : Ret) : Bool :=
  xRet == retModbusInvalidFunction || xRet == retModbusInvalidAddress ||
    xRet == retModbusInvalidData || xRet == retModbusExecuteError

def replyException (r : Reply) : Access (Device ω η) Reply :=
  if isException r.1 then do
    let fc ← peek 0
    poke 0 (fc ||| 0x80)
    poke 1 (UInt8.ofNat (r.1.toNat % 16))
    pure (retOk, some 2)
  else pure r

def process : Access (Device ω η) Reply := do
  let ucFunctionCode ← peek 0
  let r ← processFunction fw model ulReqFrameLen ulRespBuffLen ucFunctionCode
  replyException r

end Branch

end EdgeNode.Modbus
