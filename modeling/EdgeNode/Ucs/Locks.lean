import EdgeNode.Ucs.Operations

/-! Which operations of `FTE_LIST` and `FTE_UCS` give back every lock that they take. -/

namespace EdgeNode.Ucs

open LockRuns Sys

section Channels

variable {H : Finset Key}

theorem triple_pushBack {α : Type} {pList : FteList α} (h : pList.Live) (pItem : α) (m : Memory) :
    Triple Key.IsLock ∅ (pList.pushBack pItem m) ∅ :=
  FteList.triple_push fun hl => h.not_lost m hl.1

theorem triple_create {xUCSList : FteList Nat} (h : xUCSList.Live) (pConfig : UcsConfig)
    (m : CreateMemory) : Triple Key.IsLock ∅ (create xUCSList pConfig m) ∅ := by
  rw [create]
  split
  next => exact Triple.pure _
  next pUCS _ =>
    exact Triple.bind (triple_pushBack (h.initialized m.listed) pUCS m.pushed) fun _ => Triple.pure _

theorem triple_destroy {xUCSList : FteList Nat} (h : xUCSList.Live) (pUCS : Nat) (m : Memory) :
    Triple Key.IsLock ∅ (destroy xUCSList pUCS m) ∅ :=
  Triple.bind (FteList.triple_remove (h.not_lost m)) fun _ => Triple.pure _

theorem triple_taskCreate {taskList : FteList UInt32} (h : taskList.Live) (t : TaskResult)
    (list : TemplateList) (nTemplateIndex : Int32) :
    Triple Key.IsLock ∅ (t.create list nTemplateIndex taskList) ∅ := by
  rw [TaskResult.create, taskCreated]
  split
  next =>
    split
    next => exact Triple.pure _
    next => exact Triple.wait
  next =>
    rw [taskAppend]
    split
    next =>
      exact Triple.bind (Triple.bind (triple_pushBack h t.xTaskID t.memory) fun _ => Triple.pure _)
        fun _ => Triple.pure _
    next => exact Triple.pure _

theorem taskCreate_live {taskList : FteList UInt32} (h : taskList.Live) {t : TaskResult}
    {list : TemplateList} {nTemplateIndex : Int32} {r : Created}
    (hr : (t.create list nTemplateIndex taskList).outcome = .returned r) : r.taskList.Live := by
  rw [TaskResult.create, taskCreated] at hr
  split at hr
  next =>
    split at hr
    next =>
      cases hr
      exact h
    next => cases hr
  next =>
    rw [taskAppend] at hr
    split at hr
    next =>
      obtain ⟨l, hl, hr⟩ := Run.returned_bind hr
      obtain ⟨p, hp, hl⟩ := Run.returned_bind hl
      cases hl
      cases hr
      exact h.push hp
    next =>
      cases hr
      exact h

theorem init_xParents {list : TemplateList} {pUCS : FteUcs} {taskList : FteList UInt32} {fopen : Bool}
    {rx tx : TaskResult} {r : Ret × FteUcs × FteList UInt32}
    (hr : (init list pUCS taskList fopen rx tx).outcome = .returned r) :
    r.2.1.xParents = pUCS.xParents := by
  rw [init] at hr
  split at hr
  next =>
    cases hr
    rfl
  next =>
    split at hr
    next =>
      obtain ⟨a, -, hr⟩ := Run.returned_bind hr
      split at hr
      next =>
        split at hr
        next =>
          cases hr
          rfl
        next => cases hr
      next =>
        obtain ⟨b, -, hr⟩ := Run.returned_bind hr
        cases hr
        rfl
    next =>
      cases hr
      rfl

theorem triple_init (list : TemplateList) (pUCS : FteUcs) {taskList : FteList UInt32}
    (h : taskList.Live) (fopen : Bool) (rx tx : TaskResult) :
    Triple Key.IsLock ∅ (init list pUCS taskList fopen rx tx) ∅ := by
  rw [init]
  split
  next => exact Triple.pure _
  next =>
    split
    next =>
      refine Triple.bind_of_returned (triple_taskCreate h rx list taskUcsRx) fun r hr => ?_
      split
      next =>
        split
        next => exact Triple.pure _
        next => exact Triple.stop
      next =>
        exact Triple.bind (triple_taskCreate (taskCreate_live h hr) tx list taskUcsTx)
          fun _ => Triple.pure _
    next => exact Triple.pure _

theorem triple_attach (list : TemplateList) {pUCS : FteUcs} (hp : pUCS.xParents.Live)
    {taskList : FteList UInt32} (h : taskList.Live) (nParent : UInt32) (fopen : Bool)
    (rx tx : TaskResult) (gpio : UInt32 → Option UInt32) (m : Memory) :
    Triple Key.IsLock ∅ (attach list pUCS taskList nParent fopen rx tx gpio m) ∅ := by
  refine Triple.bind_of_returned (triple_init list pUCS h fopen rx tx) fun r hr => ?_
  have hlive : r.2.1.xParents.Live := by
    rw [init_xParents hr]
    exact hp
  dsimp only
  split
  next => exact Triple.pure _
  next =>
    split
    next => exact Triple.bind (triple_pushBack hlive nParent m) fun _ => Triple.pure _
    next => exact Triple.pure _

theorem triple_detach {pUCS : FteUcs} (hp : pUCS.xParents.Live) (nParent : UInt32) (m : Memory) :
    Triple Key.IsLock ∅ (detach pUCS nParent m) ∅ := by
  rw [detach]
  split
  next => exact Triple.bind (FteList.triple_remove (hp.not_lost m)) fun _ => Triple.pure _
  next => exact Triple.pure _

theorem triple_get (xUCSList : FteList Nat) (channels : Nat → FteUcs) (nID : UInt32) (m : Memory) :
    Triple Key.IsLock ∅ (get xUCSList channels nID m) ∅ := by
  rw [get]
  split
  next => exact Triple.pure _
  next => exact Triple.stop

end Channels

section Transfers

variable {H : Finset Key}

theorem triple_clear (hk : Key.xSEMRecv ∉ H) (pUCS : FteUcs) :
    Triple Key.IsLock H (clear pUCS) H :=
  Triple.enable rfl hk (Triple.disable rfl hk (Triple.pure _))

theorem triple_recv (pUCS : FteUcs) (nBuffLen : Nat) :
    Triple Key.IsLock ∅ (recv pUCS nBuffLen) ∅ := by
  refine Triple.enable rfl (Finset.notMem_empty _) (Triple.enable rfl (by decide) ?_)
  exact Triple.disable rfl (by decide) (Triple.disable rfl (Finset.notMem_empty _) (Triple.pure _))

theorem triple_recvLast (pUCS : FteUcs) (nBuffLen : Nat) :
    Triple Key.IsLock ∅ (recvLast pUCS nBuffLen) ∅ := by
  refine Triple.enable rfl (Finset.notMem_empty _) (Triple.enable rfl (by decide) ?_)
  exact Triple.disable rfl (by decide) (Triple.disable rfl (Finset.notMem_empty _) (Triple.pure _))

theorem triple_send (pUCS : FteUcs) (pBuff : List UInt8) :
    Triple Key.IsLock ∅ (send pUCS pBuff) ∅ := by
  refine Triple.enable rfl (Finset.notMem_empty _) (Triple.enable rfl (by decide) ?_)
  refine Triple.disable rfl (by decide) (Triple.signal (by decide) ?_).2
  exact Triple.disable rfl (Finset.notMem_empty _) (Triple.pure _)

theorem triple_awaitBytes (nBuffLen : Nat) (nTimeout : UInt32) (pUCS : FteUcs)
    (arrivals : List Arrival) :
    Triple Key.IsLock H (awaitBytes nBuffLen nTimeout pUCS arrivals) H := by
  induction arrivals generalizing pUCS with
  | nil => exact Triple.wait
  | cons a as ih =>
    rw [awaitBytes]
    split
    · split
      · exact Triple.pure _
      · exact ih _
    · exact Triple.pure _

theorem triple_sendAndRecv (pUCS : FteUcs) (pData : List UInt8) (nBuffLen : Nat)
    (nTimeout : UInt32) (arrivals : List Arrival) :
    Triple Key.IsLock ∅ (sendAndRecv pUCS pData nBuffLen nTimeout arrivals) ∅ := by
  refine Triple.enable rfl (Finset.notMem_empty _) (Triple.bind (triple_clear (by decide) pUCS) ?_)
  rintro ⟨-, pUCS⟩
  refine Triple.enable rfl (by decide) (Triple.disable rfl (by decide) ?_)
  refine (Triple.signal (by decide) (Triple.bind (triple_awaitBytes _ _ _ _) fun pUCS => ?_)).2
  refine Triple.enable rfl (by decide) (Triple.disable rfl (by decide) ?_)
  exact Triple.disable rfl (Finset.notMem_empty _) (Triple.pure _)

theorem awaitBytes_returns {nTimeout : UInt32} {arrivals : List Arrival}
    (h : ∃ a ∈ arrivals, nTimeout < a.elapsed) (nBuffLen : Nat) (pUCS : FteUcs) :
    ∃ u, (awaitBytes nBuffLen nTimeout pUCS arrivals).outcome = .returned u := by
  induction arrivals generalizing pUCS with
  | nil => simp at h
  | cons a as ih =>
    rw [awaitBytes]
    split
    · split
      next => exact ⟨_, rfl⟩
      next hlt =>
        obtain ⟨a', hmem, hover⟩ := h
        obtain rfl | hmem := List.mem_cons.mp hmem
        · exact absurd hover hlt
        · exact ih ⟨a', hmem, hover⟩ _
    · exact ⟨_, rfl⟩

/-- The operation ends at the latest with the first turn that finds the time over. -/
theorem sendAndRecv_returns {nTimeout : UInt32} {arrivals : List Arrival}
    (h : ∃ a ∈ arrivals, nTimeout < a.elapsed) (pUCS : FteUcs) (pData : List UInt8)
    (nBuffLen : Nat) :
    ∃ r, (sendAndRecv pUCS pData nBuffLen nTimeout arrivals).outcome = .returned r := by
  obtain ⟨u, hu⟩ := awaitBytes_returns h nBuffLen
    (accepted { pUCS with ring := pUCS.ring.clear } pData).2
  refine ⟨received u nBuffLen, ?_⟩
  have hbind := Run.bind_returned (f := fun u => do
    Run.enable Key.xSEMRecv
    Run.disable Key.xSEMRecv
    unlock
    pure (received u nBuffLen)) hu
  exact hbind

theorem triple_modbusGetRegs (crc16 : List UInt8 → UInt16) (pUCS : FteUcs) (ucDeviceID : UInt8)
    (usAddr : UInt16) (nCount : UInt8) (nTimeout : UInt32) (alloc : Bool) (arrivals : List Arrival) :
    Triple Key.IsLock ∅
      (modbusGetRegs crc16 pUCS ucDeviceID usAddr nCount nTimeout alloc arrivals) ∅ := by
  rw [modbusGetRegs]
  split
  next =>
    refine Triple.bind (triple_sendAndRecv _ _ _ _ _) fun r => ?_
    dsimp only
    split
    · exact Triple.pure _
    · split <;> exact Triple.pure _
  next => exact Triple.pure _

theorem triple_modbusSetReg (crc16 : List UInt8 → UInt16) (pUCS : FteUcs) (ucDeviceID : UInt8)
    (usAddr usValue : UInt16) (nTimeout : UInt32) (arrivals : List Arrival) :
    Triple Key.IsLock ∅ (modbusSetReg crc16 pUCS ucDeviceID usAddr usValue nTimeout arrivals) ∅ := by
  refine Triple.bind (triple_sendAndRecv _ _ _ _ _) fun r => ?_
  dsimp only
  split
  · exact Triple.pure _
  · split <;> exact Triple.pure _

/-- The turns of the wait, up to the first that finds the time over. -/
def looked (nTimeout : UInt32) : List Look → List Look
  | [] => []
  | l :: ls => l :: if l.elapsed < nTimeout then looked nTimeout ls else []

theorem triple_awaitSent {nTimeout : UInt32} {looks : List Look}
    (h : ∀ l ∈ looked nTimeout looks, l.nSendCount ≠ 0) :
    Triple Key.IsLock (insert .xSEMLock ∅) (awaitSent nTimeout looks) ∅ := by
  induction looks with
  | nil => exact Triple.wait
  | cons l ls ih =>
    rw [looked] at h
    rw [awaitSent, if_neg (h l List.mem_cons_self)]
    split
    next hlt =>
      rw [if_pos hlt] at h
      exact ih fun l' hl => h l' (List.mem_cons_of_mem l hl)
    next => exact Triple.disable rfl (Finset.notMem_empty _) (Triple.pure _)

/-- A turn that finds the buffer empty ends the wait at once. -/
theorem awaitSent_empty {nTimeout : UInt32} {looks : List Look}
    (h : ∃ l ∈ looked nTimeout looks, l.nSendCount = 0) : awaitSent nTimeout looks = pure true := by
  induction looks with
  | nil => simp [looked] at h
  | cons l ls ih =>
    rw [awaitSent]
    split
    next => rfl
    next hl =>
      obtain ⟨l', hmem, hzero⟩ := h
      rw [looked, List.mem_cons] at hmem
      obtain rfl | hmem := hmem
      · exact absurd hzero hl
      · split at hmem
        next hlt =>
          rw [if_pos hlt]
          exact ih ⟨l', hmem, hzero⟩
        next => simp at hmem

theorem wait_returns {nTimeout : UInt32} {looks : List Look}
    (h : ∃ l ∈ looks, nTimeout ≤ l.elapsed) :
    ∃ b, (waitForSendCompletion nTimeout looks).outcome = .returned b := by
  have hawait : ∃ b, (awaitSent nTimeout looks).outcome = .returned b := by
    induction looks with
    | nil => simp at h
    | cons l ls ih =>
      rw [awaitSent]
      split
      next => exact ⟨true, rfl⟩
      next =>
        split
        next hlt =>
          obtain ⟨l', hmem, hover⟩ := h
          obtain rfl | hmem := List.mem_cons.mp hmem
          · exact absurd hlt (UInt32.not_lt.mpr hover)
          · exact ih ⟨l', hmem, hover⟩
        next => exact ⟨false, rfl⟩
  obtain ⟨b, hb⟩ := hawait
  exact ⟨b, hb⟩

theorem wait_balanced_iff (nTimeout : UInt32) (looks : List Look) :
    Balanced Key.IsLock (waitForSendCompletion nTimeout looks) ↔
      ∀ l ∈ looked nTimeout looks, l.nSendCount ≠ 0 := by
  constructor
  · intro hb l hl hzero
    have hrun : waitForSendCompletion nTimeout looks = ⟨[.enable .xSEMLock], .returned true⟩ := by
      rw [waitForSendCompletion, awaitSent_empty ⟨l, hl, hzero⟩]
      rfl
    rw [hrun] at hb
    have hcount := hb.released (by simp) .xSEMLock rfl
    simp at hcount
  · intro h
    have ht : Triple Key.IsLock ∅ (waitForSendCompletion nTimeout looks) ∅ :=
      Triple.enable rfl (Finset.notMem_empty _) (triple_awaitSent h)
    exact ht.balanced

end Transfers

section Tasks

theorem triple_drain {H : Finset Key} (cfg : Config) (b : SendBuffer UInt8) (writes : List Nat) :
    Triple Key.IsLock H (drain cfg b writes) H := by
  induction writes generalizing b with
  | nil =>
    rw [drain]
    split
    · exact Triple.wait
    · exact Triple.pure _
  | cons w ws ih =>
    rw [drain]
    split
    · exact ih _
    · exact Triple.pure _

theorem triple_sendRound (pUCS : FteUcs) (writes : List Nat) :
    Triple Key.IsLock ∅ (sendRound pUCS writes) ∅ := by
  refine (Triple.signal (by decide) ?_).1
  refine Triple.enable rfl (Finset.notMem_empty _) ?_
  refine Triple.bind (triple_drain _ _ _) fun b => ?_
  exact Triple.disable rfl (Finset.notMem_empty _) (Triple.pure _)

theorem triple_recvRound (pUCS : FteUcs) (nData : Option UInt8) :
    Triple Key.IsLock ∅ (recvRound pUCS nData) ∅ := by
  cases nData with
  | none => exact Triple.pure _
  | some nData =>
    refine Triple.enable rfl (Finset.notMem_empty _) ?_
    exact Triple.disable rfl (Finset.notMem_empty _) (Triple.pure _)

theorem triple_task {ι : Type} {round : FteUcs → ι → Run Key FteUcs}
    (h : ∀ pUCS i, Triple Key.IsLock ∅ (round pUCS i) ∅) (xUCSList : FteList Nat)
    (channels : Nat → FteUcs) (nParams : UInt32) (m : Memory) (rounds : List ι) :
    Triple Key.IsLock ∅ (task round xUCSList channels nParams m rounds) ∅ := by
  refine Triple.bind (triple_get _ _ _ _) fun r => ?_
  dsimp only
  split
  · exact Triple.stop
  · exact Triple.foldlM h rounds _

theorem triple_shellCmd (xUCSList : FteList Nat) (channels : Nat → FteUcs) (ioctl : UInt32 → Bool)
    (m : Memory) (arrivals : List Arrival) (cmd : Command) :
    Triple Key.IsLock ∅ (shellCmd xUCSList channels ioctl m arrivals cmd) ∅ := by
  cases cmd with
  | usage => exact Triple.pure _
  | list => exact Triple.pure _
  | baudrate id ulBaudrate =>
    refine Triple.bind (triple_get _ _ _ _) fun r => ?_
    dsimp only
    split
    · exact Triple.pure _
    · exact Triple.stop
    · exact Triple.pure _
  | sar id pData ulRecvLen =>
    refine Triple.bind (triple_get _ _ _ _) fun r => ?_
    dsimp only
    split
    · exact Triple.pure _
    · exact Triple.stop
    · exact Triple.bind (triple_sendAndRecv _ _ _ _ _) fun _ => Triple.pure _

end Tasks

section Operations

/-- A channel whose parents were not finalised; `FTE_UCS_destroy` alone does that, and frees it. -/
abbrev LiveUcs := { pUCS : FteUcs // pUCS.xParents.Live }

/-- The operations of `FTE_UCS`, its shell command and its tasks, with what they are given and what
they meet: memory, files and tasks or their lack, arriving bytes, progress of the other task, time. -/
inductive UcsOperation where
  | create (xUCSList : LiveList Nat) (pConfig : UcsConfig) (m : CreateMemory)
  | destroy (xUCSList : LiveList Nat) (pUCS : Nat) (m : Memory)
  | attach (list : TemplateList) (pUCS : LiveUcs) (taskList : LiveList UInt32) (nParent : UInt32)
      (fopen : Bool) (rx tx : TaskResult) (gpio : UInt32 → Option UInt32) (m : Memory)
  | detach (pUCS : LiveUcs) (nParent : UInt32) (m : Memory)
  | get (xUCSList : LiveList Nat) (channels : Nat → FteUcs) (nID : UInt32) (m : Memory)
  | count (xUCSList : LiveList Nat)
  | getAt (xUCSList : LiveList Nat) (ulIndex : Nat) (m : Memory)
  | init (list : TemplateList) (pUCS : FteUcs) (taskList : LiveList UInt32) (fopen : Bool)
      (rx tx : TaskResult)
  | setBaudrate (ioctl : UInt32 → Bool) (pUCS : FteUcs) (nBaudrate : UInt32)
  | setDatabits (ioctl : UInt32 → Bool) (pUCS : FteUcs) (nDataBits : UInt32)
  | setParity (ioctl : UInt32 → Bool) (pUCS : FteUcs) (nParity : UInt32)
  | setStopbits (ioctl : UInt32 → Bool) (pUCS : FteUcs) (nStopBits : UInt32)
  | setDuplexMode (pUCS : FteUcs) (bFullDuplex : Bool)
  | getBaudrate (pUCS : FteUcs)
  | getDatabits (pUCS : FteUcs)
  | getParity (pUCS : FteUcs)
  | getStopbits (pUCS : FteUcs)
  | getDuplexMode (pUCS : FteUcs)
  | setUART (ioctl : Fin 4 → UInt32 → Bool) (pUCS : FteUcs) (pConfig : UartConfig)
  | getUART (pUCS : FteUcs)
  | clear (pUCS : FteUcs)
  | recvdLen (pUCS : FteUcs)
  | sendBufferIsEmpty (pUCS : FteUcs)
  | recv (pUCS : FteUcs) (nBuffLen : Nat)
  | recvLast (pUCS : FteUcs) (nBuffLen : Nat)
  | send (pUCS : FteUcs) (pBuff : List UInt8)
  | sendAndRecv (pUCS : FteUcs) (pData : List UInt8) (nBuffLen : Nat) (nTimeout : UInt32)
      (arrivals : List Arrival)
  | waitForSendCompletion (nTimeout : UInt32) (looks : List Look)
  | modbusGetRegs (crc16 : List UInt8 → UInt16) (pUCS : FteUcs) (ucDeviceID : UInt8)
      (usAddr : UInt16) (nCount : UInt8) (nTimeout : UInt32) (alloc : Bool) (arrivals : List Arrival)
  | modbusSetReg (crc16 : List UInt8 → UInt16) (pUCS : FteUcs) (ucDeviceID : UInt8)
      (usAddr usValue : UInt16) (nTimeout : UInt32) (arrivals : List Arrival)
  | shellCmd (xUCSList : LiveList Nat) (channels : Nat → FteUcs) (ioctl : UInt32 → Bool)
      (m : Memory) (arrivals : List Arrival) (cmd : Command)
  | taskSend (xUCSList : LiveList Nat) (channels : Nat → FteUcs) (nParams : UInt32) (m : Memory)
      (rounds : List (List Nat))
  | taskRecv (xUCSList : LiveList Nat) (channels : Nat → FteUcs) (nParams : UInt32) (m : Memory)
      (rounds : List (Option UInt8))

namespace UcsOperation

def run : UcsOperation → Run Key Unit
  | .create xUCSList pConfig m => (fun _ => ()) <$> Ucs.create xUCSList.val pConfig m
  | .destroy xUCSList pUCS m => (fun _ => ()) <$> Ucs.destroy xUCSList.val pUCS m
  | .attach list pUCS taskList nParent fopen rx tx gpio m =>
    (fun _ => ()) <$> Ucs.attach list pUCS.val taskList.val nParent fopen rx tx gpio m
  | .detach pUCS nParent m => (fun _ => ()) <$> Ucs.detach pUCS.val nParent m
  | .get xUCSList channels nID m => (fun _ => ()) <$> Ucs.get xUCSList.val channels nID m
  | .count xUCSList => lockFree (Ucs.count xUCSList.val)
  | .getAt xUCSList ulIndex m => lockFree (Ucs.getAt xUCSList.val ulIndex m)
  | .init list pUCS taskList fopen rx tx =>
    (fun _ => ()) <$> Ucs.init list pUCS taskList.val fopen rx tx
  | .setBaudrate ioctl pUCS nBaudrate => lockFree (Ucs.setBaudrate ioctl pUCS nBaudrate)
  | .setDatabits ioctl pUCS nDataBits => lockFree (Ucs.setDatabits ioctl pUCS nDataBits)
  | .setParity ioctl pUCS nParity => lockFree (Ucs.setParity ioctl pUCS nParity)
  | .setStopbits ioctl pUCS nStopBits => lockFree (Ucs.setStopbits ioctl pUCS nStopBits)
  | .setDuplexMode pUCS bFullDuplex => lockFree (Ucs.setDuplexMode pUCS bFullDuplex)
  | .getBaudrate pUCS => lockFree (Ucs.getBaudrate pUCS)
  | .getDatabits pUCS => lockFree (Ucs.getDatabits pUCS)
  | .getParity pUCS => lockFree (Ucs.getParity pUCS)
  | .getStopbits pUCS => lockFree (Ucs.getStopbits pUCS)
  | .getDuplexMode pUCS => lockFree (Ucs.getDuplexMode pUCS)
  | .setUART ioctl pUCS pConfig => lockFree (Ucs.setUART ioctl pUCS pConfig)
  | .getUART pUCS => lockFree (Ucs.getUART pUCS)
  | .clear pUCS => (fun _ => ()) <$> Ucs.clear pUCS
  | .recvdLen pUCS => lockFree (Ucs.recvdLen pUCS)
  | .sendBufferIsEmpty pUCS => lockFree (Ucs.sendBufferIsEmpty pUCS)
  | .recv pUCS nBuffLen => (fun _ => ()) <$> Ucs.recv pUCS nBuffLen
  | .recvLast pUCS nBuffLen => (fun _ => ()) <$> Ucs.recvLast pUCS nBuffLen
  | .send pUCS pBuff => (fun _ => ()) <$> Ucs.send pUCS pBuff
  | .sendAndRecv pUCS pData nBuffLen nTimeout arrivals =>
    (fun _ => ()) <$> Ucs.sendAndRecv pUCS pData nBuffLen nTimeout arrivals
  | .waitForSendCompletion nTimeout looks => (fun _ => ()) <$> Ucs.waitForSendCompletion nTimeout looks
  | .modbusGetRegs crc16 pUCS ucDeviceID usAddr nCount nTimeout alloc arrivals =>
    (fun _ => ()) <$> Ucs.modbusGetRegs crc16 pUCS ucDeviceID usAddr nCount nTimeout alloc arrivals
  | .modbusSetReg crc16 pUCS ucDeviceID usAddr usValue nTimeout arrivals =>
    (fun _ => ()) <$> Ucs.modbusSetReg crc16 pUCS ucDeviceID usAddr usValue nTimeout arrivals
  | .shellCmd xUCSList channels ioctl m arrivals cmd =>
    (fun _ => ()) <$> Ucs.shellCmd xUCSList.val channels ioctl m arrivals cmd
  | .taskSend xUCSList channels nParams m rounds =>
    (fun _ => ()) <$> task sendRound xUCSList.val channels nParams m rounds
  | .taskRecv xUCSList channels nParams m rounds =>
    (fun _ => ()) <$> task recvRound xUCSList.val channels nParams m rounds

/-- No wait for the send buffer finds it empty before its time is over. -/
def Allowed : UcsOperation → Prop
  | .waitForSendCompletion nTimeout looks => ∀ l ∈ looked nTimeout looks, l.nSendCount ≠ 0
  | _ => True

theorem balanced_of_triple {α : Type} {r : Run Key α} (h : Triple Key.IsLock ∅ r ∅) :
    Balanced Key.IsLock ((fun _ => ()) <$> r : Run Key Unit) ↔ True :=
  iff_of_true ((balanced_map _ r).mpr h.balanced) trivial

theorem balanced_iff (op : UcsOperation) : Balanced Key.IsLock op.run ↔ op.Allowed := by
  cases op with
  | waitForSendCompletion nTimeout looks =>
    exact (balanced_map _ _).trans (wait_balanced_iff nTimeout looks)
  | create xUCSList pConfig m =>
    exact balanced_of_triple (triple_create xUCSList.property pConfig m)
  | destroy xUCSList pUCS m =>
    exact balanced_of_triple (triple_destroy xUCSList.property pUCS m)
  | attach list pUCS taskList nParent fopen rx tx gpio m =>
    have ht := triple_attach list pUCS.property taskList.property nParent fopen rx tx gpio m
    exact balanced_of_triple ht
  | detach pUCS nParent m =>
    exact balanced_of_triple (triple_detach pUCS.property nParent m)
  | init list pUCS taskList fopen rx tx =>
    have ht := triple_init list pUCS taskList.property fopen rx tx
    exact balanced_of_triple ht
  | get => exact balanced_of_triple (triple_get _ _ _ _)
  | clear pUCS =>
    have ht := triple_clear (Finset.notMem_empty _) pUCS
    exact balanced_of_triple ht
  | recv => exact balanced_of_triple (triple_recv _ _)
  | recvLast => exact balanced_of_triple (triple_recvLast _ _)
  | send => exact balanced_of_triple (triple_send _ _)
  | sendAndRecv => exact balanced_of_triple (triple_sendAndRecv _ _ _ _ _)
  | modbusGetRegs =>
    exact balanced_of_triple (triple_modbusGetRegs _ _ _ _ _ _ _ _)
  | modbusSetReg =>
    exact balanced_of_triple (triple_modbusSetReg _ _ _ _ _ _ _)
  | shellCmd => exact balanced_of_triple (triple_shellCmd _ _ _ _ _ _)
  | taskSend =>
    exact balanced_of_triple (triple_task triple_sendRound _ _ _ _ _)
  | taskRecv =>
    exact balanced_of_triple (triple_task triple_recvRound _ _ _ _ _)
  | count | getAt | setBaudrate | setDatabits | setParity | setStopbits | setDuplexMode
  | getBaudrate | getDatabits | getParity | getStopbits | getDuplexMode | setUART | getUART
  | recvdLen | sendBufferIsEmpty => exact iff_of_true (balanced_pure ()) trivial

end UcsOperation

end Operations

inductive Operation (α : Type) where
  | list (pList : FteList α) (op : ListOperation α)
  | ucs (op : UcsOperation)

namespace Operation

variable {α : Type} [DecidableEq α]

def run : Operation α → Run Key Unit
  | .list pList op => op.run pList
  | .ucs op => op.run

def Allowed : Operation α → Prop
  | .list pList op => op.Allowed pList
  | .ucs op => op.Allowed

/-- Every path of every operation pairs its calls on locks, but for the paths named. -/
theorem run_balanced_iff (op : Operation α) : Balanced Key.IsLock op.run ↔ op.Allowed := by
  cases op with
  | list pList op => exact op.balanced_iff pList
  | ucs op => exact op.balanced_iff

theorem popBack_not_balanced : ¬ Balanced Key.IsLock
    (Operation.list (⟨some [7], some 0⟩ : FteList Nat) (.popBack ⟨true, none, true⟩)).run := by
  intro h
  have hcount := h.released nofun (.list 0) rfl
  revert hcount
  decide

end Operation

end EdgeNode.Ucs
