import EdgeNode.Lib.Runs
import EdgeNode.Ucs.Operations

/-! A serial port with the tasks that serve it: opened by the first of its parents, closed behind the
last. -/

namespace EdgeNode.Ucs

open LockRuns Runs Sys

inductive UcsTask where
  | rx
  | tx
  deriving DecidableEq

/-- The index of its template. -/
def UcsTask.index : UcsTask → Int32
  | .rx => taskUcsRx
  | .tx => taskUcsTx

/-- The port, and the tasks of it that exist. -/
structure Port where
  pUCS : FteUcs
  tasks : UInt32 → Option UcsTask

/-- What the calls that an attach makes give: whether the driver's file opens, the answers of
`_task_create`, the pins of the flow control, the memory of the list. -/
structure PortCalls where
  fopen : Bool
  rx : UInt32
  tx : UInt32
  gpio : UInt32 → Option UInt32
  memory : Memory

namespace Port

/-! A call answers with no code when it never ends, or when the calling task is destroyed in it. -/

section Calls

variable (list : TemplateList) (p : Port)

/-- `FTE_TASK_create`; every turn of its loop looks at the same entry. -/
def taskCreate (k : UcsTask) (xTaskID : UInt32) : Option Ret × Option UInt32 × Port :=
  if xTaskID = nullTaskId then
    match failureText (list.entry k.index.toInt) k.index 1 with
    | some _ => (some retError, none, p)
    | none => (none, none, p)
  else (some retOk, some xTaskID, { p with tasks := Function.update p.tasks xTaskID (some k) })

def taskDestroy : Option UInt32 → Port
  | none => p
  | some xTaskID => { p with tasks := Function.update p.tasks xTaskID none }

/-- The error path of `FTE_UCS_init`: the tasks whose handles are zero are destroyed. -/
def initError : Option Ret × Port :=
  let p := { p with pUCS := { p.pUCS with pFD := false } }
  match p.pUCS.hTaskRX, p.pUCS.hTaskTX with
  | some _, some _ => (some retError, p)
  | _, _ => (none, p)

def opened : Port := { p with pUCS := { p.pUCS with pFD := true } }

def withRX (hTaskRX : Option UInt32) : Port := { p with pUCS := { p.pUCS with hTaskRX } }

def withTX (hTaskTX : Option UInt32) : Port := { p with pUCS := { p.pUCS with hTaskTX } }

/-- The end of `FTE_UCS_init`, which does not look at what the creation of the second task returns. -/
def initTX (c : PortCalls) : Option Ret × Port :=
  match p.taskCreate list .tx c.tx with
  | (none, _, p) => (none, p)
  | (some _, hTaskTX, p) => (some retOk, p.withTX (hTaskTX <|> p.pUCS.hTaskTX))

def init (c : PortCalls) : Option Ret × Port :=
  if p.pUCS.pFD then (some retOk, p)
  else if c.fopen then
    match p.opened.taskCreate list .rx c.rx with
    | (none, _, p) => (none, p)
    | (some xRet, hTaskRX, p) =>
      if xRet ≠ retOk then p.initError else (p.withRX hTaskRX).initTX list c
  else (some retInvalidObject, p)

def flow (c : PortCalls) : FteUcs :=
  let pin := fun nID old => if nID ≠ 0 then c.gpio nID else old
  { p.pUCS with
    pFlowCtrl := pin p.pUCS.pConfig.nFlowCtrlID p.pUCS.pFlowCtrl
    pFlowCtrl2 := pin p.pUCS.pConfig.nFlowCtrl2ID p.pUCS.pFlowCtrl2 }

def withParents (xParents : FteList UInt32) : Port := { p with pUCS := { p.pUCS with xParents } }

def attach (nParent : UInt32) (c : PortCalls) : Option Ret × Port :=
  match p.init list c with
  | (none, p) => (none, p)
  | (some xRet, p) =>
    if xRet ≠ retOk then (some retError, p)
    else
      let p := { p with pUCS := p.flow c }
      if nParent ≠ 0 then
        match (p.pUCS.xParents.pushBack nParent c.memory).outcome with
        | .returned (_, xParents) => (some retOk, p.withParents xParents)
        | _ => (none, p)
      else (some retOk, p)

def close : Port :=
  if p.pUCS.xParents.count = 0 then
    { (p.taskDestroy p.pUCS.hTaskRX).taskDestroy p.pUCS.hTaskTX with pUCS := closed p.pUCS }
  else p

def detach (nParent : UInt32) (m : Memory) : Option Ret × Port :=
  if nParent ≠ 0 then
    match (p.pUCS.xParents.remove nParent m).outcome with
    | .returned (_, xParents) => (some retOk, (p.withParents xParents).close)
    | _ => (none, p)
  else (some retOk, p.close)

/-- The port in `FTE_GUS_attach`, which detaches with no parent when the attach fails. -/
def gusAttach (nID : UInt32) (c : PortCalls) : Option Ret × Port :=
  match p.attach list nID c with
  | (none, p) => (none, p)
  | (some xRet, p) => if xRet ≠ retOk then (some retError, (p.detach 0 c.memory).2) else (some retOk, p)

end Calls

/-- No parent: the file is closed, and there are no tasks and no pins. -/
structure Idle (p : Port) : Prop where
  file : p.pUCS.pFD = false
  handles : p.pUCS.hTaskRX = none ∧ p.pUCS.hTaskTX = none
  pins : p.pUCS.pFlowCtrl = none ∧ p.pUCS.pFlowCtrl2 = none
  tasks : p.tasks = fun _ => none

/-- The file is open, and the tasks are the two that the handles name. -/
def Serving (p : Port) : Prop :=
  p.pUCS.pFD = true ∧ ∃ rx tx, rx ≠ tx ∧ p.pUCS.hTaskRX = some rx ∧ p.pUCS.hTaskTX = some tx ∧
    p.tasks = Function.update (Function.update (fun _ => none) rx (some .rx)) tx (some .tx)

section Specs

variable {list : TemplateList} {p p' : Port} {c : PortCalls} {nParent : UInt32} {m : Memory}

theorem taskCreate_of_ne {k : UcsTask} {xTaskID : UInt32} (h : xTaskID ≠ nullTaskId) :
    p.taskCreate list k xTaskID =
      (some retOk, some xTaskID, { p with tasks := Function.update p.tasks xTaskID (some k) }) :=
  if_neg h

theorem init_of_open (h : p.pUCS.pFD = true) : p.init list c = (some retOk, p) := by
  rw [init, if_pos h]

theorem attach_of_no_file (hclosed : p.pUCS.pFD = false) (h : c.fopen = false) :
    p.attach list nParent c = (some retError, p) := by
  have hinit : p.init list c = (some retInvalidObject, p) := by simp [init, hclosed, h]
  rw [attach, hinit]
  rfl

/-- In every product the attach that gets no receiving task never ends, with the file open. -/
theorem attach_of_no_rx (parts : Supported) (hclosed : p.pUCS.pFD = false) (hopen : c.fopen = true)
    (hrx : c.rx = nullTaskId) : p.attach (mqxTemplateList parts) nParent c = (none, p.opened) := by
  have hcreate : p.opened.taskCreate (mqxTemplateList parts) .rx nullTaskId = (none, none, p.opened) := by
    rw [taskCreate, if_pos rfl, UcsTask.index, failureText_ucsRx]
  have hinit : p.init (mqxTemplateList parts) c = (none, p.opened) := by
    rw [init, if_neg (by simp [hclosed]), if_pos hopen, hrx, hcreate]
  rw [attach, hinit]

theorem Idle.init (list : TemplateList) (h : p.Idle) (hopen : c.fopen = true) (hne : c.rx ≠ c.tx)
    (hrx : c.rx ≠ nullTaskId) (htx : c.tx ≠ nullTaskId) :
    ∃ p', p.init list c = (some retOk, p') ∧ p'.Serving ∧ p'.pUCS.xParents = p.pUCS.xParents := by
  have hinit : p.init list c = (some retOk,
      ⟨{ p.pUCS with pFD := true, hTaskRX := some c.rx, hTaskTX := some c.tx },
        Function.update (Function.update p.tasks c.rx (some .rx)) c.tx (some .tx)⟩) := by
    rw [Port.init, if_neg (by simp [h.file]), if_pos hopen, taskCreate_of_ne hrx]
    dsimp only
    rw [if_neg (by simp), initTX, taskCreate_of_ne htx]
    rfl
  exact ⟨_, hinit, ⟨rfl, c.rx, c.tx, hne, rfl, rfl, by rw [h.tasks]⟩, rfl⟩

/-- Behind an init that returns OK the parent is put on the list. -/
theorem attach_of_init (h : p.init list c = (some retOk, p')) (hs : p'.Serving)
    (hlist : nParent ≠ 0 → p'.pUCS.xParents.Ready c.memory ∧ c.memory.node = true) :
    ∃ q, p.attach list nParent c = (some retOk, q) ∧ q.Serving ∧
      q.pUCS.xParents.items = p'.pUCS.xParents.items ++ if nParent ≠ 0 then [nParent] else [] := by
  have hflow : ({ p' with pUCS := p'.flow c } : Port).Serving := hs
  rw [attach, h]
  dsimp only
  rw [if_neg (by simp)]
  by_cases hp : nParent ≠ 0
  · obtain ⟨hready, hnode⟩ := hlist hp
    obtain ⟨l, hpush, hitems⟩ := @FteList.Ready.push _ (· ++ [nParent]) _ _ hready hnode
    have hpush' : ((p'.flow c).xParents.pushBack nParent c.memory).outcome = .returned (retOk, l) := hpush
    rw [if_pos hp, hpush', if_pos hp]
    exact ⟨_, rfl, hflow, hitems⟩
  · rw [if_neg hp, if_neg hp]
    exact ⟨_, rfl, hflow, (List.append_nil _).symm⟩

theorem Idle.close (h : p.Idle) : p.close = p := by
  obtain ⟨⟨_, _, _, hTaskRX, hTaskTX, pFD, pFlowCtrl, pFlowCtrl2, _, _⟩, tasks⟩ := p
  obtain ⟨rfl, ⟨rfl, rfl⟩, ⟨rfl, rfl⟩, -⟩ := h
  rw [Port.close]
  split
  next hcount =>
    rw [closed, if_pos hcount]
    rfl
  next => rfl

/-- The last of the parents is gone. -/
theorem Serving.close (h : p.Serving) (hcount : p.pUCS.xParents.count = 0) : p.close.Idle := by
  obtain ⟨-, rx, tx, -, hrx, htx, htasks⟩ := h
  rw [Port.close, if_pos hcount, closed, if_pos hcount]
  refine ⟨rfl, ⟨rfl, rfl⟩, ⟨rfl, rfl⟩, ?_⟩
  dsimp only
  rw [hrx, htx]
  funext id
  simp only [taskDestroy, htasks, Function.update_apply]
  split
  · rfl
  · split <;> rfl

theorem close_of_parents (hcount : p.pUCS.xParents.count ≠ 0) : p.close = p := by
  rw [close, if_neg hcount]

theorem close_xParents : p.close.pUCS.xParents = p.pUCS.xParents := by
  rw [close]
  split
  next hcount =>
    dsimp only
    rw [closed, if_pos hcount]
  next => rfl

theorem detach_eq (hlist : nParent ≠ 0 → p.pUCS.xParents.Ready m) :
    ∃ xParents, p.detach nParent m = (some retOk, (p.withParents xParents).close) ∧
      xParents.items = if nParent ≠ 0 then p.pUCS.xParents.items.erase nParent
        else p.pUCS.xParents.items := by
  by_cases hp : nParent ≠ 0
  · obtain ⟨xRet, l, hremove, hitems⟩ := (hlist hp).remove nParent
    refine ⟨l, ?_, ?_⟩
    · rw [detach, if_pos hp, hremove]
    · rw [if_pos hp, hitems]
  · exact ⟨p.pUCS.xParents, by rw [detach, if_neg hp]; rfl, by rw [if_neg hp]⟩

end Specs

section Agreement

variable {list : TemplateList} {p : Port} {c : PortCalls} {nParent : UInt32} {m : Memory}

/-- How a call of `FTE_UCS` ends, or is seen, that answers so on the port. -/
def EndsAs {β : Type} (f : β → Ret × FteUcs) (r : Option Ret × Port) (o : Outcome β) : Prop :=
  match r with
  | (some xRet, p) => ∃ b, o = .returned b ∧ f b = (xRet, p.pUCS)
  | (none, _) => o = .stopped ∨ o = .waiting

theorem push_ends {α : Type} (insert : List α → List α) (pList : FteList α) (m : Memory) :
    (FteList.push insert pList m).outcome ≠ .waiting := by
  rw [FteList.push]
  cases pList.initialized m with
  | mk pHead pLockKey => cases pHead <;> cases pLockKey <;> cases m.node <;> intro h <;> cases h

theorem remove_ends (pList : FteList UInt32) (x : UInt32) (m : Memory) :
    (pList.remove x m).outcome ≠ .waiting := by
  rw [FteList.remove]
  cases pList.initialized m with
  | mk pHead pLockKey =>
    cases pLockKey with
    | none =>
      intro h
      cases h
    | some k =>
      cases pHead with
      | none =>
        intro h
        cases h
      | some items =>
        intro h
        by_cases hmem : x ∈ items
        · simp only [if_pos hmem] at h
          cases h
        · simp only [if_neg hmem] at h
          cases h

/-- Behind a call on a list that ends as it does. -/
theorem endsAs_bind {β : Type} {f : β → Ret × FteUcs} {r : Run Key (Ret × FteList UInt32)}
    {g : FteList UInt32 → Port} {q : Port} {h : Ret × FteList UInt32 → Run Key β}
    (hwait : r.outcome ≠ .waiting)
    (hret : ∀ b, EndsAs f (some retOk, g b.2) (h b).outcome) :
    EndsAs f (match r.outcome with
      | .returned (_, l) => (some retOk, g l)
      | _ => (none, q)) (r >>= h).outcome := by
  obtain ⟨acts, outcome⟩ := r
  cases outcome with
  | returned b => exact hret b
  | stopped => exact .inl rfl
  | waiting => exact absurd rfl hwait

theorem closed_agrees (p : Port) : p.close.pUCS = closed p.pUCS := by
  rw [close]
  split
  next => rfl
  next hcount => rw [closed, if_neg hcount]

theorem detach_agrees : EndsAs id (p.detach nParent m) (Ucs.detach p.pUCS nParent m).outcome := by
  rw [Port.detach, Ucs.detach]
  split
  next =>
    refine endsAs_bind (remove_ends _ _ _) fun b => ?_
    exact ⟨_, rfl, by rw [closed_agrees]; rfl⟩
  next => exact ⟨_, rfl, by rw [closed_agrees]; rfl⟩

/-- After its first turn the loop has ended or never does. -/
theorem failureText_succ (pTemplate : Template) (nTemplateIndex : Int32) (turns : Nat) :
    failureText pTemplate nTemplateIndex (turns + 1) = failureText pTemplate nTemplateIndex 1 := by
  by_cases h : pTemplate.TASK_TEMPLATE_INDEX = 0 ∨
      pTemplate.TASK_TEMPLATE_INDEX = nTemplateIndex.toUInt32
  · rw [failureText, failureText]
    by_cases hzero : pTemplate.TASK_TEMPLATE_INDEX = 0
    · rw [if_neg (not_not_intro hzero), if_neg (not_not_intro hzero)]
    · rw [if_pos hzero, if_pos hzero, if_pos (h.resolve_left hzero), if_pos (h.resolve_left hzero)]
  · rw [not_or] at h
    rw [failureText_eq_none h.1 h.2, failureText_eq_none h.1 h.2]

theorem taskCreate_agrees (list : TemplateList) (p : Port) (k : UcsTask) (items : List UInt32)
    (key : Nat) (xTaskID : UInt32) (info : Bool) (memory : Memory) (turns : Nat) :
    match p.taskCreate list k xTaskID with
    | (some xRet, hTask, _) => ∃ r, (TaskResult.create ⟨xTaskID, info, memory, turns + 1⟩ list k.index
        ⟨some items, some key⟩).outcome = .returned r ∧ r.xRet = xRet ∧ r.xTaskID = hTask ∧
          ∃ items', r.taskList = ⟨some items', some key⟩
    | (none, _, _) => (TaskResult.create ⟨xTaskID, info, memory, turns + 1⟩ list k.index
        ⟨some items, some key⟩).outcome = .waiting := by
  rw [taskCreate, TaskResult.create, taskCreated]
  split_ifs with hnull
  · dsimp only
    rw [failureText_succ _ _ turns]
    cases failureText (list.entry k.index.toInt) k.index 1 with
    | none => rfl
    | some text => exact ⟨⟨retError, text, none, ⟨some items, some key⟩⟩, rfl, rfl, rfl, items, rfl⟩
  · have hlisted : ∃ items', (taskAppend info memory xTaskID ⟨some items, some key⟩).outcome =
        .returned ⟨some items', some key⟩ := by
      rw [taskAppend]
      cases info with
      | false => exact ⟨items, rfl⟩
      | true =>
        rw [if_pos rfl, FteList.pushBack, FteList.push]
        cases memory.node with
        | false => exact ⟨items, rfl⟩
        | true => exact ⟨items ++ [xTaskID], rfl⟩
    obtain ⟨items', hlisted⟩ := hlisted
    exact ⟨⟨retOk, "", some xTaskID, ⟨some items', some key⟩⟩, Run.bind_returned hlisted, rfl, rfl,
      items', rfl⟩

theorem taskCreate_pUCS (list : TemplateList) (p : Port) (k : UcsTask) (xTaskID : UInt32) :
    (p.taskCreate list k xTaskID).2.2.pUCS = p.pUCS := by
  rw [taskCreate]
  split
  next => split <;> rfl
  next => rfl

variable (items : List UInt32) (key : Nat) (rxInfo txInfo : Bool) (rxMemory txMemory : Memory)
  (rxTurns txTurns : Nat)

theorem initTX_agrees {pUCS : FteUcs} (hp : p.pUCS = pUCS) : EndsAs (fun b => (b.1, b.2.1))
    (p.initTX list c) (do
      let t ← TaskResult.create ⟨c.tx, txInfo, txMemory, txTurns + 1⟩ list taskUcsTx
        ⟨some items, some key⟩
      pure (retOk, { pUCS with hTaskTX := t.xTaskID <|> pUCS.hTaskTX }, t.taskList)
        : Run Key (Ret × FteUcs × FteList UInt32)).outcome := by
  have htx := taskCreate_agrees list p .tx items key c.tx txInfo txMemory txTurns
  have hq := taskCreate_pUCS list p .tx c.tx
  rw [initTX]
  generalize p.taskCreate list .tx c.tx = created at htx hq ⊢
  obtain ⟨xRet, hTaskTX, q⟩ := created
  cases xRet with
  | none => exact .inr (Run.bind_waiting htx)
  | some xRet =>
    obtain ⟨r, hr, -, rfl, -⟩ := htx
    change q.pUCS = p.pUCS at hq
    refine ⟨_, Run.bind_returned hr, ?_⟩
    dsimp only [withTX]
    rw [hq, hp]

/-- The list of tasks has its head and its lock. -/
theorem init_agrees : EndsAs (fun b => (b.1, b.2.1)) (p.init list c)
    (Ucs.init list p.pUCS ⟨some items, some key⟩ c.fopen ⟨c.rx, rxInfo, rxMemory, rxTurns + 1⟩
      ⟨c.tx, txInfo, txMemory, txTurns + 1⟩).outcome := by
  rw [Port.init, Ucs.init]
  split
  next => exact ⟨_, rfl, rfl⟩
  next =>
    split
    next =>
      have hrx := taskCreate_agrees list p.opened .rx items key c.rx rxInfo rxMemory rxTurns
      have hq := taskCreate_pUCS list p.opened .rx c.rx
      generalize p.opened.taskCreate list .rx c.rx = created at hrx hq ⊢
      obtain ⟨xRet, hTaskRX, q⟩ := created
      change q.pUCS = p.opened.pUCS at hq
      cases xRet with
      | none => exact .inr (Run.bind_waiting hrx)
      | some xRet =>
        obtain ⟨r, hr, rfl, rfl, items', hlist⟩ := hrx
        change (TaskResult.create _ list taskUcsRx _).outcome = _ at hr
        rw [Run.bind_returned hr]
        dsimp only
        split
        next =>
          rw [initError, hq]
          dsimp only [opened]
          cases p.pUCS.hTaskRX with
          | none => exact .inl rfl
          | some rx =>
            cases p.pUCS.hTaskTX with
            | none => exact .inl rfl
            | some tx => exact ⟨_, rfl, rfl⟩
        next =>
          have hserved : (q.withRX r.xTaskID).pUCS =
              { p.pUCS with pFD := true, hTaskRX := r.xTaskID } := by
            rw [withRX, hq]
            rfl
          rw [hlist]
          exact initTX_agrees items' key txInfo txMemory txTurns hserved
    next => exact ⟨_, rfl, rfl⟩

/-- The port's model ends as the calls that it is made from. -/
theorem attach_agrees : EndsAs (fun b => (b.1, b.2.1)) (p.attach list nParent c)
    (Ucs.attach list p.pUCS ⟨some items, some key⟩ nParent c.fopen
      ⟨c.rx, rxInfo, rxMemory, rxTurns + 1⟩ ⟨c.tx, txInfo, txMemory, txTurns + 1⟩ c.gpio
      c.memory).outcome := by
  have hinit := @init_agrees list p c items key rxInfo txInfo rxMemory txMemory
    rxTurns txTurns
  rw [Port.attach]
  generalize p.init list c = r at hinit ⊢
  obtain ⟨xRet, q⟩ := r
  cases xRet with
  | none => exact hinit.imp Run.bind_stopped Run.bind_waiting
  | some xRet =>
    obtain ⟨⟨xRet', pUCS, taskList⟩, hb, heq⟩ := hinit
    cases heq
    rw [Ucs.attach, Run.bind_returned hb]
    dsimp only
    split
    next => exact ⟨_, rfl, rfl⟩
    next =>
      split
      next => exact endsAs_bind (push_ends _ _ _) fun b => ⟨_, rfl, rfl⟩
      next => exact ⟨_, rfl, rfl⟩

end Agreement

end Port

/-- The port, and the parents whose attach returned OK and that were not detached since; a parent
that attached twice stands there twice. -/
structure Sharing where
  port : Port
  attached : List UInt32

inductive SharingAction where
  | attach (nParent : UInt32) (c : PortCalls)
  | gusAttach (nID : UInt32) (c : PortCalls)
  | detach (nParent : UInt32) (m : Memory)

/-- A task that is created is none that exists. -/
def PortCalls.Fresh (c : PortCalls) (p : Port) : Prop :=
  (c.rx ≠ nullTaskId → p.tasks c.rx = none ∧ c.rx ≠ c.tx) ∧ (c.tx ≠ nullTaskId → p.tasks c.tx = none)

instance (c : PortCalls) (p : Port) : Decidable (c.Fresh p) :=
  inferInstanceAs (Decidable ((_ → _ ∧ _) ∧ (_ → _)))

/-- What a call that attaches answers, and the port behind it. -/
def SharingAction.attaches (list : TemplateList) (p : Port) :
    SharingAction → Option (Option Ret × Port)
  | .attach nParent c => some (p.attach list nParent c)
  | .gusAttach nID c => some (p.gusAttach list nID c)
  | .detach _ _ => none

namespace Sharing

open Port

variable (list : TemplateList)

def start (pUCS : FteUcs) : Sharing := ⟨⟨pUCS, fun _ => none⟩, []⟩

/-- A parent of zero is no parent. -/
def attachedBehind (s : Sharing) (nParent : UInt32) : Option Ret × Port → Sharing
  | (xRet, port) => ⟨port,
      if xRet = some retOk ∧ nParent ≠ 0 then s.attached ++ [nParent] else s.attached⟩

def detachedBehind (s : Sharing) (nParent : UInt32) : Option Ret × Port → Sharing
  | (xRet, port) => ⟨port, if xRet = some retOk ∧ nParent ≠ 0 then s.attached.erase nParent else s.attached⟩

def step (s : Sharing) : SharingAction → Option Sharing
  | .attach nParent c =>
    if c.Fresh s.port then s.attachedBehind nParent (s.port.attach list nParent c) else none
  | .gusAttach nID c =>
    if c.Fresh s.port then s.attachedBehind nID (s.port.gusAttach list nID c) else none
  | .detach nParent m => s.detachedBehind nParent (s.port.detach nParent m)

/-- The file is open, and each of the two tasks exists, while at least one parent is attached. -/
structure Shared (s : Sharing) : Prop where
  file : s.port.pUCS.pFD = true ↔ s.attached ≠ []
  tasks : ∀ k, (∃ id, s.port.tasks id = some k) ↔ s.attached ≠ []

/-- An attach that does not return OK returns, and leaves the port and its tasks as they were. -/
def FailsClean (s : Sharing) (a : SharingAction) : Prop :=
  ∀ xRet port, a.attaches list s.port = some (xRet, port) → xRet ≠ some retOk →
    xRet ≠ none ∧ port = s.port

/-- The port is open, or its file does not open, or both tasks are created; and the parent gets on the
list, or is none while there are others. -/
def AttachAllowed (p : Port) (nParent : UInt32) (c : PortCalls) : Prop :=
  (p.pUCS.pFD = true ∨ c.fopen = false ∨ c.rx ≠ nullTaskId ∧ c.tx ≠ nullTaskId) ∧
  (p.pUCS.pFD = true ∨ c.fopen = true →
    (nParent = 0 → p.pUCS.xParents.count ≠ 0) ∧
    (nParent ≠ 0 → p.pUCS.xParents.Ready c.memory ∧ c.memory.node = true))

def Allowed (s : Sharing) : SharingAction → Prop
  | .attach nParent c | .gusAttach nParent c => AttachAllowed s.port nParent c
  | .detach nParent m => nParent ≠ 0 → s.port.pUCS.xParents.Ready m

instance (p : Port) (nParent : UInt32) (c : PortCalls) : Decidable (AttachAllowed p nParent c) :=
  inferInstanceAs (Decidable ((_ ∨ _ ∨ _ ∧ _) ∧ (_ ∨ _ → _ ∧ _)))

instance (s : Sharing) : DecidablePred s.Allowed := fun a => by
  cases a <;> unfold Allowed <;> infer_instance

structure Inv (s : Sharing) : Prop where
  items : s.port.pUCS.xParents.items = s.attached
  idle : s.attached = [] → s.port.Idle
  serving : s.attached ≠ [] → s.port.Serving

/-- An attach has failed and left the port, or the port now serves the parent too. -/
def Settled (s : Sharing) (nParent : UInt32) (r : Option Ret × Port) : Prop :=
  r = (some retError, s.port) ∨
    ∃ q, r = (some retOk, q) ∧ q.Serving ∧ (nParent = 0 → s.attached ≠ []) ∧
      q.pUCS.xParents.items = s.attached ++ if nParent ≠ 0 then [nParent] else []

variable {list} {s t : Sharing} {a : SharingAction} {nParent : UInt32} {c : PortCalls} {m : Memory}

theorem Inv.shared (h : s.Inv) : s.Shared := by
  by_cases hnil : s.attached = []
  · have hidle := h.idle hnil
    exact ⟨by simp [hidle.file, hnil], fun k => by simp [hidle.tasks, hnil]⟩
  · obtain ⟨hfile, rx, tx, hne, -, -, htasks⟩ := h.serving hnil
    refine ⟨by simp [hfile, hnil], fun k => iff_of_true ?_ hnil⟩
    rw [htasks]
    cases k with
    | rx => exact ⟨rx, by rw [Function.update_of_ne hne, Function.update_self]⟩
    | tx => exact ⟨tx, Function.update_self ..⟩

theorem inv_start (pConfig : UcsConfig) (xParents : FteList UInt32) (uart : UartConfig)
    (ring : RecvRing UInt8) (buffer : SendBuffer UInt8) (hnil : xParents.items = []) :
    (start ⟨pConfig, xParents, uart, none, none, false, none, none, ring, buffer⟩).Inv :=
  ⟨hnil, fun _ => ⟨rfl, ⟨rfl, rfl⟩, ⟨rfl, rfl⟩, rfl⟩, fun h => absurd rfl h⟩

theorem attach_settled (hi : s.Inv) (hf : c.Fresh s.port) (ha : AttachAllowed s.port nParent c) :
    s.Settled nParent (s.port.attach list nParent c) ∧ (s.attached ≠ [] ∨ s.port.Idle) := by
  obtain ⟨hcalls, hlist⟩ := ha
  have hparent : (nParent = 0 → s.port.pUCS.xParents.count ≠ 0) → nParent = 0 → s.attached ≠ [] := by
    intro hcount hzero hnil
    exact hcount hzero (by rw [FteList.count, hi.items, hnil, List.length_nil])
  by_cases hnil : s.attached = []
  · have hidle := hi.idle hnil
    refine ⟨?_, .inr hidle⟩
    cases hopen : c.fopen with
    | false => exact .inl (attach_of_no_file hidle.file hopen)
    | true =>
      obtain ⟨hrx, htx⟩ := (hcalls.resolve_left (by simp [hidle.file])).resolve_left (by simp [hopen])
      obtain ⟨p', hinit, hserving, hsame⟩ := hidle.init list hopen (hf.1 hrx).2 hrx htx
      obtain ⟨hzero, hready⟩ := hlist (.inr hopen)
      rw [← hsame] at hready
      obtain ⟨q, hq, hqs, hitems⟩ := attach_of_init hinit hserving hready
      rw [hsame, hi.items] at hitems
      exact .inr ⟨q, hq, hqs, hparent hzero, hitems⟩
  · have hserving := hi.serving hnil
    obtain ⟨-, hready⟩ := hlist (.inl hserving.1)
    obtain ⟨q, hq, hqs, hitems⟩ := attach_of_init (init_of_open hserving.1) hserving hready
    rw [hi.items] at hitems
    exact ⟨.inr ⟨q, hq, hqs, fun _ => hnil, hitems⟩, .inl hnil⟩

/-- The detach behind a failed attach closes what is closed. -/
theorem gusAttach_settled (hi : s.Inv) (hf : c.Fresh s.port) (ha : AttachAllowed s.port nParent c) :
    s.Settled nParent (s.port.gusAttach list nParent c) := by
  obtain ⟨hfail | ⟨q, hq, hrest⟩, hidle⟩ := attach_settled hi hf ha
  · left
    have hclose : s.port.close = s.port := by
      rcases hidle with hne | hidle
      · refine close_of_parents ?_
        rw [FteList.count, hi.items]
        exact fun h => hne (List.length_eq_zero_iff.mp h)
      · exact hidle.close
    rw [gusAttach, hfail]
    dsimp only
    rw [if_pos (by decide), Port.detach, if_neg (by simp), hclose]
  · right
    refine ⟨q, ?_, hrest⟩
    rw [gusAttach, hq]
    rfl

theorem attaches_settled (hi : s.Inv) (ha : s.Allowed a) (h : s.step list a = some t) {r : Option Ret × Port}
    (hr : a.attaches list s.port = some r) : ∃ nParent, s.Settled nParent r := by
  cases a with
  | attach nParent c =>
    cases hr
    exact ⟨nParent, (attach_settled hi (by_contra fun hf => by simp [step, hf] at h) ha).1⟩
  | gusAttach nID c =>
    cases hr
    exact ⟨nID, gusAttach_settled hi (by_contra fun hf => by simp [step, hf] at h) ha⟩
  | detach nParent m => cases hr

theorem inv_attachedBehind (hi : s.Inv) {r : Option Ret × Port} (h : s.Settled nParent r) :
    (s.attachedBehind nParent r).Inv := by
  obtain rfl | ⟨q, rfl, hserving, hzero, hitems⟩ := h
  · exact hi
  · by_cases hp : nParent ≠ 0
    · rw [if_pos hp] at hitems
      rw [attachedBehind, if_pos ⟨rfl, hp⟩]
      exact ⟨hitems, fun hnil => absurd hnil (by simp), fun _ => hserving⟩
    · rw [if_neg hp, List.append_nil] at hitems
      rw [attachedBehind, if_neg fun hand => hp hand.2]
      exact ⟨hitems, fun hnil => absurd hnil (hzero (not_not.mp hp)), fun _ => hserving⟩

theorem inv_detachedBehind (hi : s.Inv) (ha : nParent ≠ 0 → s.port.pUCS.xParents.Ready m) :
    (s.detachedBehind nParent (s.port.detach nParent m)).Inv := by
  obtain ⟨xParents, hdetach, hitems⟩ := detach_eq ha
  have hleft : s.detachedBehind nParent (s.port.detach nParent m) =
      ⟨(s.port.withParents xParents).close, xParents.items⟩ := by
    rw [hdetach, detachedBehind, hitems, hi.items]
    simp
  rw [hi.items] at hitems
  rw [hleft]
  have hserving (hne : s.attached ≠ []) :
      (s.port.withParents xParents).Serving := hi.serving hne
  have hidle (hnil : s.attached = []) :
      (s.port.withParents xParents).Idle :=
    have h := hi.idle hnil
    ⟨h.file, h.handles, h.pins, h.tasks⟩
  refine ⟨congrArg FteList.items close_xParents, fun hnil => ?_, fun hne => ?_⟩
  · have hcount : xParents.count = 0 := List.length_eq_zero_iff.mpr hnil
    by_cases hwas : s.attached = []
    · exact (hidle hwas).close.symm ▸ hidle hwas
    · exact (hserving hwas).close hcount
  · have hcount : xParents.count ≠ 0 := fun hcount => hne (List.length_eq_zero_iff.mp hcount)
    have hwas : s.attached ≠ [] := by
      intro hnil
      rw [hnil] at hitems
      exact hne (by simpa using hitems)
    exact (close_of_parents (p := s.port.withParents xParents) hcount).symm ▸ hserving hwas

theorem inv_step (hi : s.Inv) (ha : s.Allowed a) (h : s.step list a = some t) : t.Inv := by
  cases a with
  | attach nParent c =>
    rw [step] at h
    split at h
    next hf =>
      cases h
      exact inv_attachedBehind hi (attach_settled hi hf ha).1
    next => cases h
  | gusAttach nID c =>
    rw [step] at h
    split at h
    next hf =>
      cases h
      exact inv_attachedBehind hi (gusAttach_settled hi hf ha)
    next => cases h
  | detach nParent m =>
    cases h
    exact inv_detachedBehind hi ha

theorem failsClean_of_allowed (hi : s.Inv) (ha : s.Allowed a) (h : s.step list a = some t) :
    s.FailsClean list a := by
  intro xRet port hr hret
  obtain ⟨nParent, hfail | ⟨q, hq, -⟩⟩ := attaches_settled hi ha h hr
  · cases hfail
    exact ⟨nofun, rfl⟩
  · cases hq
    exact absurd rfl hret

/-- Whenever a port that was created is opened by no attach that gets only one or none of its tasks,
and by none without a parent, it is open and served while it has parents, and no attach that fails
does harm. -/
theorem shared_of_allowed {xUCSList xUCSList' : FteList Nat} {pConfig : UcsConfig} {m : CreateMemory}
    {pUCS : FteUcs}
    (hstart : (create xUCSList pConfig m).outcome = .returned (retOk, xUCSList', some pUCS))
    {acts : List SharingAction} {t : Sharing} (ht : exec (step list) acts (start pUCS) = some t)
    (ha : ∀ u a, Takes (step list) (start pUCS) acts u a → u.Allowed a) :
    (∀ u, Visits (step list) (start pUCS) acts u → u.Shared) ∧
      ∀ u a, Takes (step list) (start pUCS) acts u a → u.FailsClean list a := by
  have hs : (start pUCS).Inv := by
    rw [create] at hstart
    split at hstart
    next => cases hstart
    next =>
      obtain ⟨r, -, hr⟩ := Run.returned_bind hstart
      cases hr
      refine inv_start _ _ _ _ _ ?_
      rw [FteList.init]
      split <;> rfl
  have hinv (u : Sharing) (hv : Visits (step list) (start pUCS) acts u) : u.Inv :=
    inv_of_takes hs (fun _ _ _ => inv_step) ha hv
  refine ⟨fun u hv => (hinv u hv).shared, ?_⟩
  rintro u a ⟨pre, hp, hu⟩
  obtain ⟨v, hv⟩ := exec_isSome_of_prefix (step list) ht hp
  rw [exec_concat, hu] at hv
  exact failsClean_of_allowed (hinv u ⟨pre, (List.prefix_append pre [a]).trans hp, hu⟩)
    (ha u a ⟨pre, hp, hu⟩) hv

def pUCS : FteUcs :=
  ⟨⟨3, 0, 0, ⟨true, 9600, 8, 0, 1⟩, product⟩, ⟨some [], some 1⟩, ⟨true, 9600, 8, 0, 1⟩, none, none, false,
    none, none, ⟨fun _ => 0, 0, 0, 0⟩, ⟨fun _ => 0, 0, 0, 0⟩⟩

/-- A product with none of the parts that have tasks of their own. -/
def noParts : Supported :=
  ⟨false, false, false, false, false, false, false, false, false, false, false⟩

def calls (fopen : Bool) (rx tx : UInt32) : PortCalls :=
  ⟨fopen, rx, tx, fun _ => none, ⟨true, none, true⟩⟩

theorem create_pUCS : (create ⟨none, none⟩ pUCS.pConfig
    ⟨⟨true, some 7, true⟩, some 1, ⟨true, some 1, true⟩, ⟨true, none, true⟩⟩).outcome =
      .returned (retOk, ⟨some [1], some 7⟩, some pUCS) := rfl

/-- A parent that attaches with nothing else in the way, a second, a detach of none of them, the first
twice, the second; then an attach for which the file does not open. -/
def inTurn : List SharingAction :=
  [.attach 5 (calls true 10 11), .gusAttach 6 (calls true 0 0), .detach 9 ⟨true, none, false⟩,
    .detach 5 ⟨true, none, false⟩, .detach 5 ⟨true, none, false⟩, .detach 6 ⟨true, none, false⟩,
    .gusAttach 5 (calls false 0 0)]

theorem inTurn_shared : ∃ t, exec (step (mqxTemplateList noParts)) inTurn (start pUCS) = some t ∧
    (∀ u, Visits (step (mqxTemplateList noParts)) (start pUCS) inTurn u → u.Shared) ∧
      ∀ u a, Takes (step (mqxTemplateList noParts)) (start pUCS) inTurn u a →
        u.FailsClean (mqxTemplateList noParts) a :=
  ⟨_, rfl, shared_of_allowed create_pUCS rfl (takes_of_along (by decide))⟩

/-- A receiving task but no sending one: the attach returns OK. -/
def notServed : Sharing :=
  ⟨⟨{ pUCS with pFD := true, hTaskRX := some 10, xParents := ⟨some [5], some 1⟩ },
    Function.update (fun _ => none) 10 (some .rx)⟩, [5]⟩

/-- Without a sending task the attach returns OK where no part follows the tasks of all products;
without a receiving one it never ends in any product, with an open file and no parent. -/
theorem attach_not_shared :
    (∃ u, Visits (step (mqxTemplateList noParts)) (start pUCS) [.attach 5 (calls true 10 0)] u ∧
      ¬ u.Shared) ∧
    (∃ u, Visits (step (mqxTemplateList noParts)) (start pUCS) [.attach 5 (calls true 0 0)] u ∧
      ¬ u.Shared) ∧
    ¬ (start pUCS).FailsClean (mqxTemplateList noParts) (.attach 5 (calls true 0 0)) := by
  refine ⟨⟨notServed, ⟨_, List.prefix_rfl, rfl⟩, fun h => ?_⟩,
    ⟨_, ⟨_, List.prefix_rfl, rfl⟩, fun h => ?_⟩, ?_⟩
  · obtain ⟨id, hid⟩ := (h.tasks .tx).mpr (by decide)
    change Function.update (fun _ => none) 10 (some UcsTask.rx) id = some .tx at hid
    rw [Function.update_apply] at hid
    split at hid <;> cases hid
  · exact absurd (h.file.mp rfl) (by decide)
  · intro h
    exact (h none _ (congrArg some (attach_of_no_rx noParts rfl rfl rfl)) nofun).1 rfl

end Sharing

end EdgeNode.Ucs
