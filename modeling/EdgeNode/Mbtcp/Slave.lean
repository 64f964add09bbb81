import EdgeNode.Lib.Segments
import EdgeNode.Modbus.Slave

/-! The session task of the Modbus/TCP slave: receive a frame, process its PDU, send the
response, all through the one session buffer. -/

namespace EdgeNode.Mbtcp

open BufferAccess Segments Modbus

def modbusPduLen : Nat := 253
def sessionBuffLen : Nat := modbusPduLen + 7
def protocolId : UInt16 := 0

/-- A PDU handed to `FTE_MODBUS_SLAVE_process` and the frame sent in reply, if any. -/
structure Exchange where
  pdu : List UInt8
  reply : Option (List UInt8)

/-- The session, the local buffers of its task as memory from their addresses on, the device it
serves, and what it has done. -/
structure Session (ω η : Type) where
  pBuff : List UInt8
  pReqPDU : Nat → UInt8
  ulReqPDULen : Nat
  pRespPDU : Nat → UInt8
  ulRespPDULen : Nat
  device : Device ω η
  connected : Bool
  exchanges : List Exchange

def byteAt (pBuff : List UInt8) (i : Nat) : UInt8 := pBuff.getD i 0

/-- The zeroed session buffer with the received bytes in front. -/
def fillBuff (c : List UInt8) : List UInt8 := c ++ List.replicate (sessionBuffLen - c.length) 0

/-- The checks of `FTE_MBTCP_SLAVE_receiveFrame` on a receive of `nRcvdLen` bytes. -/
def checkFrame (pBuff : List UInt8) (nRcvdLen ulBuffSize : Nat) : Except Ret (List UInt8) :=
  if nRcvdLen < 12 ∨ modbusPduLen + 12 < nRcvdLen then .error retInvalidMsg
  else
    let usLen := (ntohs (byteAt pBuff 4) (byteAt pBuff 5)).toNat
    if usLen + 6 ≠ nRcvdLen then .error retInvalidMsg
    else if ntohs (byteAt pBuff 2) (byteAt pBuff 3) ≠ protocolId then .error retInvalidMsg
    else if byteAt pBuff 6 ≠ 0 then .error retModbusInvalidAddress
    else if ulBuffSize < usLen then .error retInvalidMsg
    else .ok ((pBuff.drop 7).take (usLen - 1))

def copyIn (bs : List UInt8) (mem : Nat → UInt8) : Nat → UInt8 :=
  fun i => if i < bs.length then bs.getD i 0 else mem i

def applyWrites (ws : List (Nat × UInt8)) (mem : Nat → UInt8) : Nat → UInt8 :=
  ws.foldl (fun mem w => Function.update mem w.1 w.2) mem

section Task

variable {ω υ η : Type} (fw : Firmware ω υ η) (sendOk : List UInt8 → Bool)

/-- `FTE_MBTCP_SLAVE_sendFrame`, with the frame it hands to the socket. -/
def sendFrame (ulBuffLen : Nat) (s : Session ω η) : Option (List UInt8) × Session ω η :=
  if modbusPduLen < ulBuffLen then (none, s)
  else
    let pBuff := s.pBuff.take 2 ++ [0, 0] ++ htons (UInt16.ofNat (ulBuffLen + 1)) ++ [0] ++
      bytesAt s.pRespPDU 0 ulBuffLen ++ s.pBuff.drop (7 + ulBuffLen)
    (some (pBuff.take (ulBuffLen + 7)), { s with pBuff })

/-- The accepted request is processed and answered. -/
def answerFrame (s : Session ω η) : Session ω η :=
  let pdu := bytesAt s.pReqPDU 0 s.ulReqPDULen
  let run := process fw (generalModel fw) s.ulReqPDULen modbusPduLen s.pReqPDU s.device
  let s := { s with
    device := run.state
    pRespPDU := applyWrites run.writes s.pRespPDU
    ulRespPDULen := run.val.2.getD s.ulRespPDULen }
  if run.val.1 = retOk then
    match sendFrame s.ulRespPDULen s with
    | (none, s) => { s with
        device := { s.device with ulTxPkt := s.device.ulTxPkt + 1 }
        exchanges := s.exchanges ++ [⟨pdu, none⟩] }
    | (some frame, s) =>
      if sendOk frame then { s with
        device := { s.device with ulTxPkt := s.device.ulTxPkt + 1 }
        exchanges := s.exchanges ++ [⟨pdu, some frame⟩] }
      else { s with connected := false, exchanges := s.exchanges ++ [⟨pdu, none⟩] }
  else { s with exchanges := s.exchanges ++ [⟨pdu, none⟩] }

/-- One return of `recv`: `none` is `RTCS_ERROR`, an empty receive goes round the inner loop. -/
def sessionRecv (s : Session ω η) : Option (Received UInt8 sessionBuffLen) → Session ω η
  | none => { s with connected := false }
  | some ⟨c, _⟩ =>
    if s.connected = false ∨ c = [] then s
    else
      let pBuff := fillBuff c
      let device := { s.device with ulRxPkt := s.device.ulRxPkt + 1 }
      match checkFrame pBuff c.length modbusPduLen with
      | .error _ => { s with pBuff, device := { device with ulRxError := device.ulRxError + 1 } }
      | .ok pdu => answerFrame fw sendOk { s with
          pBuff, device, pReqPDU := copyIn pdu s.pReqPDU, ulReqPDULen := pdu.length }

def sessionTask (rs : List (Option (Received UInt8 sessionBuffLen))) (s : Session ω η) :
    Session ω η :=
  rs.foldl (sessionRecv fw sendOk) s

end Task

end EdgeNode.Mbtcp
