import EdgeNode.Sys.TaskCreation
import EdgeNode.Ucs.Transmit

/-! The operations of `FTE_UCS` with their calls on locks. What the other tasks do meanwhile, and
the clock, come in as what each turn of a waiting loop sees. -/

namespace EdgeNode.Ucs

open LockRuns Sys

def retInvalidObject : Ret := 0x82
def mqxOutOfMemory : Ret := 4

structure UartConfig where
  bFullDuplex : Bool
  nBaudrate : UInt32
  nDataBits : UInt32
  nParity : UInt32
  nStopBits : UInt32

structure UcsConfig where
  nID : UInt32
  nFlowCtrlID : UInt32
  nFlowCtrl2ID : UInt32
  uart : UartConfig
  lengths : Config

/-- `FTE_UCS`; a handle is `none` where it is 0 or `NULL`. -/
structure FteUcs where
  pConfig : UcsConfig
  xParents : FteList UInt32
  uart : UartConfig
  hTaskRX : Option UInt32
  hTaskTX : Option UInt32
  pFD : Bool
  pFlowCtrl : Option UInt32
  pFlowCtrl2 : Option UInt32
  ring : RecvRing UInt8
  buffer : SendBuffer UInt8

section Channels

structure CreateMemory where
  listed : Memory
  pUCS : Option Nat
  parents : Memory
  pushed : Memory

/-- `FTE_UCS_create`, with zeroed memory for the rest of the channel. -/
def create (xUCSList : FteList Nat) (pConfig : UcsConfig) (m : CreateMemory) :
    Run Key (Ret × FteList Nat × Option FteUcs) :=
  let xUCSList := xUCSList.initialized m.listed
  match m.pUCS with
  | none => pure (retNotEnoughMemory, xUCSList, none)
  | some pUCS => do
    let xParents := (FteList.init ⟨none, none⟩ m.parents).2
    let (_, xUCSList) ← xUCSList.pushBack pUCS m.pushed
    pure (retOk, xUCSList, some ⟨pConfig, xParents, pConfig.uart, none, none, false, none, none,
      ⟨fun _ => 0, 0, 0, 0⟩, ⟨fun _ => 0, 0, 0, 0⟩⟩)

/-- `FTE_UCS_destroy`: the semaphores and the list of parents go first. -/
def destroy (xUCSList : FteList Nat) (pUCS : Nat) (m : Memory) : Run Key (Ret × FteList Nat) := do
  let (_, xUCSList) ← xUCSList.remove pUCS m
  pure (retOk, xUCSList)

/-- What `FTE_TASK_create` meets: the answer of `_task_create`, the memory of its entry and of the
list, and how many turns of its loop are seen. -/
structure TaskResult where
  xTaskID : UInt32
  info : Bool
  memory : Memory
  turns : Nat

def TaskResult.create (t : TaskResult) (list : TemplateList) (nTemplateIndex : Int32)
    (taskList : FteList UInt32) : Run Key Created :=
  taskCreated list t.info t.memory nTemplateIndex t.xTaskID taskList t.turns

/-- `FTE_UCS_init`. The error path destroys the handles that are none, which is to destroy the task
that calls. -/
def init (list : TemplateList) (pUCS : FteUcs) (taskList : FteList UInt32) (fopen : Bool)
    (rx tx : TaskResult) : Run Key (Ret × FteUcs × FteList UInt32) :=
  if pUCS.pFD then pure (retOk, pUCS, taskList)
  else if fopen then do
    let r ← rx.create list taskUcsRx taskList
    if r.xRet ≠ retOk then
      match pUCS.hTaskRX, pUCS.hTaskTX with
      | some _, some _ => pure (retError, { pUCS with pFD := false }, r.taskList)
      | _, _ => Run.stop
    else
      let t ← tx.create list taskUcsTx r.taskList
      pure (retOk, { pUCS with
        pFD := true, hTaskRX := r.xTaskID, hTaskTX := t.xTaskID <|> pUCS.hTaskTX }, t.taskList)
  else pure (retInvalidObject, pUCS, taskList)

/-- `FTE_UCS_attach`; `gpio` finds the object of an identifier. -/
def attach (list : TemplateList) (pUCS : FteUcs) (taskList : FteList UInt32) (nParent : UInt32)
    (fopen : Bool) (rx tx : TaskResult) (gpio : UInt32 → Option UInt32) (m : Memory) :
    Run Key (Ret × FteUcs × FteList UInt32) := do
  let (xRet, pUCS, taskList) ← init list pUCS taskList fopen rx tx
  if xRet ≠ retOk then pure (retError, pUCS, taskList)
  else
    let flow := fun nID old => if nID ≠ 0 then gpio nID else old
    let pUCS := { pUCS with
      pFlowCtrl := flow pUCS.pConfig.nFlowCtrlID pUCS.pFlowCtrl
      pFlowCtrl2 := flow pUCS.pConfig.nFlowCtrl2ID pUCS.pFlowCtrl2 }
    if nParent ≠ 0 then
      let (_, xParents) ← pUCS.xParents.pushBack nParent m
      pure (retOk, { pUCS with xParents }, taskList)
    else pure (retOk, pUCS, taskList)

/-- Without parents the tasks and the file go. -/
def closed (pUCS : FteUcs) : FteUcs :=
  if pUCS.xParents.count = 0 then
    { pUCS with pFlowCtrl := none, pFlowCtrl2 := none, hTaskRX := none, hTaskTX := none, pFD := false }
  else pUCS

def detach (pUCS : FteUcs) (nParent : UInt32) (m : Memory) : Run Key (Ret × FteUcs) :=
  if nParent ≠ 0 then do
    let (_, xParents) ← pUCS.xParents.remove nParent m
    pure (retOk, closed { pUCS with xParents })
  else pure (retOk, closed pUCS)

/-- `FTE_UCS_get` over the channels at their addresses; without a head the iteration faults. -/
def get (xUCSList : FteList Nat) (channels : Nat → FteUcs) (nID : UInt32) (m : Memory) :
    Run Key (Option Nat × FteList Nat) :=
  let xUCSList := xUCSList.initialized m
  match xUCSList.pHead with
  | some items => pure (items.find? fun pUCS => (channels pUCS).pConfig.nID = nID, xUCSList)
  | none => Run.stop

def count (xUCSList : FteList Nat) : Nat := xUCSList.count

def getAt (xUCSList : FteList Nat) (ulIndex : Nat) (m : Memory) : Option Nat × FteList Nat :=
  xUCSList.getAt ulIndex m

end Channels

section Lines

/-- `FTE_UCS_setBaudrate`, `setDatabits`, `setParity` and `setStopbits`: the driver is asked when the
value is another one. -/
def setLine (field : UartConfig → UInt32) (write : UartConfig → UInt32 → UartConfig)
    (ioctl : UInt32 → Bool) (pUCS : FteUcs) (nValue : UInt32) : Ret × FteUcs :=
  if field pUCS.uart ≠ nValue then
    if ioctl nValue then (retOk, { pUCS with uart := write pUCS.uart nValue }) else (retError, pUCS)
  else (retOk, pUCS)

def setBaudrate : (UInt32 → Bool) → FteUcs → UInt32 → Ret × FteUcs :=
  setLine UartConfig.nBaudrate fun u n => { u with nBaudrate := n }

def setDatabits : (UInt32 → Bool) → FteUcs → UInt32 → Ret × FteUcs :=
  setLine UartConfig.nDataBits fun u n => { u with nDataBits := n }

def setParity : (UInt32 → Bool) → FteUcs → UInt32 → Ret × FteUcs :=
  setLine UartConfig.nParity fun u n => { u with nParity := n }

def setStopbits : (UInt32 → Bool) → FteUcs → UInt32 → Ret × FteUcs :=
  setLine UartConfig.nStopBits fun u n => { u with nStopBits := n }

def setDuplexMode (pUCS : FteUcs) (bFullDuplex : Bool) : Ret × FteUcs :=
  (retOk, { pUCS with uart := { pUCS.uart with bFullDuplex } })

/-- `FTE_UCS_setUART`; `ioctl` answers for each of the four requests. -/
def setUART (ioctl : Fin 4 → UInt32 → Bool) (pUCS : FteUcs) (pConfig : UartConfig) : Ret × FteUcs :=
  let (_, pUCS) := setBaudrate (ioctl 0) pUCS pConfig.nBaudrate
  let (_, pUCS) := setDatabits (ioctl 1) pUCS pConfig.nDataBits
  let (_, pUCS) := setParity (ioctl 2) pUCS pConfig.nParity
  let (_, pUCS) := setStopbits (ioctl 3) pUCS pConfig.nStopBits
  (retOk, (setDuplexMode pUCS pConfig.bFullDuplex).2)

/-- The port has the settings already, or the driver takes them. -/
def Line.Accepts (ioctl : Fin 4 → UInt32 → Bool) (u x : UartConfig) : Prop :=
  (u.nBaudrate = x.nBaudrate ∨ ioctl 0 x.nBaudrate) ∧ (u.nDataBits = x.nDataBits ∨ ioctl 1 x.nDataBits) ∧
    (u.nParity = x.nParity ∨ ioctl 2 x.nParity) ∧ (u.nStopBits = x.nStopBits ∨ ioctl 3 x.nStopBits)

def getBaudrate (pUCS : FteUcs) : Ret × UInt32 := (retOk, pUCS.uart.nBaudrate)
def getDatabits (pUCS : FteUcs) : Ret × UInt32 := (retOk, pUCS.uart.nDataBits)
def getParity (pUCS : FteUcs) : Ret × UInt32 := (retOk, pUCS.uart.nParity)
def getStopbits (pUCS : FteUcs) : Ret × UInt32 := (retOk, pUCS.uart.nStopBits)
def getDuplexMode (pUCS : FteUcs) : Ret × Bool := (retOk, pUCS.uart.bFullDuplex)

def getUART (pUCS : FteUcs) : Ret × UartConfig :=
  (retOk, ⟨(getDuplexMode pUCS).2, (getBaudrate pUCS).2, (getDatabits pUCS).2, (getParity pUCS).2,
    (getStopbits pUCS).2⟩)

end Lines

section Transfers

def lock : Run Key Unit := Run.enable .xSEMLock

def unlock : Run Key Unit := Run.disable .xSEMLock

def recvdLen (pUCS : FteUcs) : Nat := pUCS.ring.nRecvCount

def sendBufferIsEmpty (pUCS : FteUcs) : Bool := pUCS.buffer.nSendCount = 0

def clear (pUCS : FteUcs) : Run Key (Nat × FteUcs) := do
  Run.enable .xSEMRecv
  let nCount := pUCS.ring.nRecvCount
  Run.disable .xSEMRecv
  pure (nCount, { pUCS with ring := pUCS.ring.clear })

/-- `_FTE_UCS_recv`; `nCount` is the length of what is copied. -/
def received (pUCS : FteUcs) (nBuffLen : Nat) : List UInt8 × FteUcs :=
  let (pBuff, ring) := pUCS.ring.recv pUCS.pConfig.lengths nBuffLen
  (pBuff, { pUCS with ring })

def recv (pUCS : FteUcs) (nBuffLen : Nat) : Run Key (List UInt8 × FteUcs) := do
  lock
  Run.enable .xSEMRecv
  let (pBuff, pUCS) := received pUCS nBuffLen
  Run.disable .xSEMRecv
  unlock
  pure (pBuff, pUCS)

def recvLast (pUCS : FteUcs) (nBuffLen : Nat) : Run Key (List UInt8 × FteUcs) := do
  lock
  Run.enable .xSEMRecv
  let (pBuff, ring) := pUCS.ring.recvLast pUCS.pConfig.lengths nBuffLen
  Run.disable .xSEMRecv
  unlock
  pure (pBuff, { pUCS with ring })

def accepted (pUCS : FteUcs) (pBuff : List UInt8) : Nat × FteUcs :=
  let cfg := pUCS.pConfig.lengths
  let b := pUCS.buffer
  let nCount := Sender.acceptCount cfg b pBuff.length
  (nCount, { pUCS with buffer := { b with
    pSendBuf := (Sender.copyIn cfg b pBuff nCount).1
    nSendTail := (b.nSendTail + nCount) % cfg.nSendBufLen
    nSendCount := b.nSendCount + nCount } })

def send (pUCS : FteUcs) (pBuff : List UInt8) : Run Key (Nat × FteUcs) := do
  lock
  Run.enable .xSEMSend
  let (nCount, pUCS) := accepted pUCS pBuff
  Run.disable .xSEMSend
  Run.disable .xSEMSendNotEmtry
  unlock
  pure (nCount, pUCS)

/-- What a turn of the loop in `FTE_UCS_sendAndRecv` meets: bytes that arrived since the last, and
the milliseconds since the start. -/
structure Arrival where
  bytes : List UInt8
  elapsed : UInt32

def awaitBytes (nBuffLen : Nat) (nTimeout : UInt32) (pUCS : FteUcs) :
    List Arrival → Run Key FteUcs
  | [] => Run.wait
  | a :: as =>
    let pUCS := { pUCS with
      ring := a.bytes.foldl (RecvRing.taskRecv pUCS.pConfig.lengths) pUCS.ring }
    if recvdLen pUCS < nBuffLen then
      if nTimeout < a.elapsed then pure pUCS else awaitBytes nBuffLen nTimeout pUCS as
    else pure pUCS

def sendAndRecv (pUCS : FteUcs) (pData : List UInt8) (nBuffLen : Nat) (nTimeout : UInt32)
    (arrivals : List Arrival) : Run Key (List UInt8 × FteUcs) := do
  lock
  let (_, pUCS) ← clear pUCS
  Run.enable .xSEMSend
  let (_, pUCS) := accepted pUCS pData
  Run.disable .xSEMSend
  Run.disable .xSEMSendNotEmtry
  let pUCS ← awaitBytes nBuffLen nTimeout pUCS arrivals
  Run.enable .xSEMRecv
  let (pBuff, pUCS) := received pUCS nBuffLen
  Run.disable .xSEMRecv
  unlock
  pure (pBuff, pUCS)

/-- What a turn of the loop in `FTE_UCS_waitForSendCompletion` sees: the bytes still to be sent, and
the milliseconds since the start. -/
structure Look where
  nSendCount : Nat
  elapsed : UInt32

/-- The loop, with what is behind it. The return in it keeps the lock. -/
def awaitSent (nTimeout : UInt32) : List Look → Run Key Bool
  | [] => Run.wait
  | l :: ls =>
    if l.nSendCount = 0 then pure true
    else if l.elapsed < nTimeout then awaitSent nTimeout ls
    else do
      unlock
      pure false

def waitForSendCompletion (nTimeout : UInt32) (looks : List Look) : Run Key Bool := do
  lock
  awaitSent nTimeout looks

end Transfers

section Modbus

variable (crc16 : List UInt8 → UInt16)

def withCrc (frame : List UInt8) : List UInt8 :=
  frame ++ [UInt8.ofNat (crc16 frame).toNat, UInt8.ofNat ((crc16 frame).toNat / 256)]

/-- The first place in what was received that has the header and the check of a whole frame. -/
def findFrame (header : List Nat) (ulValidLen : Nat) (pRecvBuff : List UInt8) : Option (List UInt8) :=
  ((List.range (pRecvBuff.length - ulValidLen + 1)).map fun i =>
      (pRecvBuff.drop i).take ulValidLen).find? fun frame =>
    header.isPrefixOf (frame.map UInt8.toNat) && frame = withCrc crc16 (frame.take (ulValidLen - 2))

/-- `FTE_UCS_MODBUS_getRegs`; `alloc` says whether there is room for the response. -/
def modbusGetRegs (pUCS : FteUcs) (ucDeviceID : UInt8) (usAddr : UInt16) (nCount : UInt8)
    (nTimeout : UInt32) (alloc : Bool) (arrivals : List Arrival) :
    Run Key (Ret × List UInt16 × FteUcs) :=
  let ulValidRespFrameLen := 5 + 2 * nCount.toNat
  if alloc then do
    let pReqFrame := withCrc crc16 ([ucDeviceID, 0x03] ++ htons usAddr ++ [0x00, nCount])
    let (pRecvBuff, pUCS) ←
      sendAndRecv pUCS pReqFrame (ulValidRespFrameLen * 2) nTimeout arrivals
    if pRecvBuff.length < ulValidRespFrameLen then pure (retError, [], pUCS)
    else
      match findFrame crc16 [ucDeviceID.toNat, 0x03, nCount.toNat * 2] ulValidRespFrameLen
          pRecvBuff with
      | none => pure (retError, [], pUCS)
      | some pRecvFrame =>
        let pRegs := (List.range nCount.toNat).map fun i =>
          ntohs (pRecvFrame.getD (3 + i * 2) 0) (pRecvFrame.getD (3 + i * 2 + 1) 0)
        pure (retOk, pRegs, pUCS)
  else pure (mqxOutOfMemory, [], pUCS)

def modbusSetReg (pUCS : FteUcs) (ucDeviceID : UInt8) (usAddr usValue : UInt16) (nTimeout : UInt32)
    (arrivals : List Arrival) : Run Key (Ret × FteUcs) := do
  let pReqFrame := withCrc crc16 ([ucDeviceID, 0x06] ++ htons usAddr ++ htons usValue)
  let (pRecvBuff, pUCS) ← sendAndRecv pUCS pReqFrame 10 nTimeout arrivals
  if pRecvBuff.length < 8 then pure (retError, pUCS)
  else if (findFrame crc16 [ucDeviceID.toNat, 0x06] 8 pRecvBuff).isSome then pure (retOk, pUCS)
  else pure (retError, pUCS)

end Modbus

section Tasks

/-- What a turn of the drain leaves when `fwrite` takes `nWrittenCount` bytes. -/
def written (cfg : Config) (b : SendBuffer UInt8) (nWrittenCount : Nat) : SendBuffer UInt8 :=
  { b with
    nSendHead := (b.nSendHead + (b.nSendHead + nWrittenCount) % 2 ^ 32 % cfg.nSendBufLen) % 2 ^ 32
    nSendCount := wordSub b.nSendCount nWrittenCount }

def drain (cfg : Config) (b : SendBuffer UInt8) : List Nat → Run Key (SendBuffer UInt8)
  | [] => if b.nSendCount ≠ 0 then Run.wait else pure b
  | w :: ws => if b.nSendCount ≠ 0 then drain cfg (written cfg b w) ws else pure b

def sendRound (pUCS : FteUcs) (writes : List Nat) : Run Key FteUcs := do
  Run.enable .xSEMSendNotEmtry
  Run.enable .xSEMSend
  let b ← drain pUCS.pConfig.lengths pUCS.buffer writes
  Run.disable .xSEMSend
  pure { pUCS with buffer := { b with nSendHead := 0, nSendTail := 0 } }

/-- A round of `FTE_UCS_TASK_recv`, with the byte that `fread` reads if it reads one. -/
def recvRound (pUCS : FteUcs) (nData : Option UInt8) : Run Key FteUcs :=
  match nData with
  | none => pure pUCS
  | some nData => do
    Run.enable .xSEMRecv
    let ring := pUCS.ring.taskRecv pUCS.pConfig.lengths nData
    Run.disable .xSEMRecv
    pure { pUCS with ring }

/-- `FTE_UCS_TASK_send` and `FTE_UCS_TASK_recv` up to the end of a round; without a channel the task
blocks. -/
def task {ι : Type} (round : FteUcs → ι → Run Key FteUcs) (xUCSList : FteList Nat)
    (channels : Nat → FteUcs) (nParams : UInt32) (m : Memory) (rounds : List ι) :
    Run Key FteUcs := do
  let (pUCS, _) ← get xUCSList channels nParams m
  match pUCS with
  | none => Run.stop
  | some pUCS => rounds.foldlM round (channels pUCS)

end Tasks

section Shell

/-- The commands of `FTE_UCS_SHELL_cmd`, as they are parsed: `none` for data that are no bytes. -/
inductive Command where
  | usage
  | list
  | baudrate (id : UInt32) (ulBaudrate : Option UInt32)
  | sar (id : UInt32) (pData : Option (List UInt8)) (ulRecvLen : Nat)

/-- `FTE_UCS_SHELL_cmd`, without what it prints. It goes on without a channel, into an assertion. -/
def shellCmd (xUCSList : FteList Nat) (channels : Nat → FteUcs) (ioctl : UInt32 → Bool) (m : Memory)
    (arrivals : List Arrival) : Command → Run Key (Option FteUcs)
  | .usage | .list => pure none
  | .baudrate id ulBaudrate => do
    let (pUCS, _) ← get xUCSList channels id m
    match ulBaudrate, pUCS with
    | none, _ => pure none
    | some _, none => Run.stop
    | some ulBaudrate, some pUCS => pure (some (setBaudrate ioctl (channels pUCS) ulBaudrate).2)
  | .sar id pData ulRecvLen => do
    let (pUCS, _) ← get xUCSList channels id m
    match pData, pUCS with
    | none, _ => pure none
    | some _, none => Run.stop
    | some pData, some pUCS => do
      let (_, pUCS) ← sendAndRecv (channels pUCS) pData ulRecvLen 100 arrivals
      pure (some pUCS)

end Shell

end EdgeNode.Ucs
