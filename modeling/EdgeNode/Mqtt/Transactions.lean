import EdgeNode.Lib.Runs

/-! The send pool, the transaction records and the requests of the MQTT client: publishers, the
sender task, subscribers and the callbacks of the acknowledgements. -/

namespace EdgeNode.Mqtt.Transactions

/-- An entry of `xSendMsgPool`. The number stands for its topic and text. -/
structure Message where
  number : Nat
  nQoS : UInt8
deriving DecidableEq

/-- What a record is kept for, numbered in the order of the calls. -/
inductive Request where
  | message (number : Nat)
  | topic (number : Nat)
deriving DecidableEq

structure Trans where
  nMsgID : UInt16
  request : Request

/-- Where the task of `FTE_MQTT_sender` stands with the message it popped. -/
inductive Sender where
  | idle
  | popped (pMsg : Message)
  | created (pMsg : Message) (pTrans : Nat)
  | sent (pMsg : Message) (pTrans : Nat) (nMsgID : UInt16)

/-- A task inside `FTE_MQTT_subscribe`; the identifier is there once the request has been sent. -/
structure Subscriber where
  pTrans : Nat
  topic : Nat
  nMsgID : Option UInt16
deriving DecidableEq

/-- The context, and as ghosts the requests so far, the messages accepted with QoS 1 or 2, the
identifiers requests were sent under, the requests the broker acknowledged, and those of the current
connection that it has not. -/
structure Context where
  connected : Bool
  networkUp : Bool
  seq : UInt16
  xSendMsgPool : List Message
  xTransList : List Nat
  xFreeTransList : List Nat
  records : Nat → Trans
  allocated : Nat
  sender : Sender
  subscribers : List Subscriber
  numbered : Nat
  accepted : List Nat
  sentAs : List (Request × UInt16)
  acked : List Request
  pending : List Request

/-- How a call of the MQTT library ends: no memory for its header, a later failure, or sent. -/
inductive Outcome where
  | noMemory
  | failed
  | sent
deriving DecidableEq

def mqttPublish : Outcome → Int
  | .sent => 1
  | _ => -1

def mqttPublishWithQos (seq : UInt16) : Outcome → Int × UInt16
  | .noMemory => (-1, seq)
  | .failed => (-1, seq + 1)
  | .sent => (1, seq + 1)

def mqttSubscribe (seq : UInt16) (sent : Bool) : Int × UInt16 := (if sent then 1 else -1, seq + 1)

/-- `FTE_MQTT_TRANS_create`, at `allocOk = false` without memory for a new record. -/
def transCreate (allocOk : Bool) (s : Context) : Option (Nat × Context) :=
  match s.xFreeTransList with
  | p :: free => some (p, { s with xFreeTransList := free })
  | [] => if allocOk then some (s.allocated, { s with allocated := s.allocated + 1 }) else none

/-- `FTE_MQTT_TRANS_destroy`, at `nodeOk = false` without memory for the list node. -/
def transDestroy (nodeOk : Bool) (p : Nat) (s : Context) : Context :=
  { s with
    xTransList := s.xTransList.erase p
    xFreeTransList := if nodeOk then s.xFreeTransList ++ [p] else s.xFreeTransList }

def transPush (nodeOk : Bool) (p : Nat) (t : Trans) (s : Context) : Context :=
  { s with
    records := Function.update s.records p t
    xTransList := if nodeOk then s.xTransList ++ [p] else s.xTransList }

def transGet (s : Context) (nMsgID : UInt16) : Option Nat :=
  s.xTransList.find? fun p => (s.records p).nMsgID == nMsgID

/-- `FTE_MQTT_disconnect` leaves both lists as they are. -/
def disconnect (s : Context) : Context := { s with connected := false, pending := [] }

/-- `FTE_MQTT_publish` returns `FTE_MQTT_RET_OK` whenever it is connected. -/
def publish (nQoS : UInt32) (allocOk nodeOk : Bool) (s : Context) : Context :=
  if s.connected then
    { s with
      numbered := s.numbered + 1
      accepted := if nQoS = 1 ∨ nQoS = 2 then s.accepted ++ [s.numbered] else s.accepted
      xSendMsgPool := if allocOk && nodeOk then s.xSendMsgPool ++ [⟨s.numbered, nQoS.toUInt8⟩]
        else s.xSendMsgPool }
  else s

/-- The broker acknowledges the request, if the packet is for one. -/
def acknowledge (r : Option Request) (s : Context) : Context :=
  match r with
  | some r => { s with acked := s.acked ++ [r], pending := s.pending.erase r }
  | none => s

inductive Action where
  | connack
  | disconnect
  | network (up : Bool)
  | publish (nQoS : UInt32) (allocOk nodeOk : Bool)
  | pop
  | plain (o : Outcome)
  | create (allocOk : Bool)
  | transmit (o : Outcome) (nodeOk : Bool)
  | push (nodeOk : Bool)
  | subscribe (allocOk : Bool)
  | subTransmit (x : Subscriber) (sent : Bool)
  | subPush (x : Subscriber) (nodeOk : Bool)
  | received (nMsgID : UInt16)
  | ack (nMsgID : UInt16) (r : Option Request) (nodeOk : Bool)

/-- The sender and the callbacks work step by step, so that acknowledgements, publishes and
connection losses fall between any two of them. -/
def step (s : Context) : Action → Option Context
  | .connack => if s.connected then none else some { s with connected := true }
  | .disconnect => some (disconnect s)
  | .network up => some { s with networkUp := up }
  | .publish nQoS allocOk nodeOk => some (publish nQoS allocOk nodeOk s)
  | .pop => match s.sender, s.xSendMsgPool with
    | .idle, pMsg :: rest =>
      if s.networkUp then some { s with xSendMsgPool := rest, sender := .popped pMsg } else none
    | _, _ => none
  | .plain o => match s.sender with
    | .popped pMsg =>
      if pMsg.nQoS = 1 ∨ pMsg.nQoS = 2 then none
      else if pMsg.nQoS = 0 ∧ mqttPublish o = 0 then some (disconnect { s with sender := .idle })
      else some { s with sender := .idle }
    | _ => none
  | .create allocOk => match s.sender with
    | .popped pMsg =>
      if pMsg.nQoS = 1 ∨ pMsg.nQoS = 2 then
        match transCreate allocOk s with
        | some (p, s) => some { s with sender := .created pMsg p }
        | none => some { s with sender := .idle }
      else none
    | _ => none
  | .transmit o nodeOk => match s.sender with
    | .created pMsg p =>
      let (nRet, seq) := mqttPublishWithQos s.seq o
      if nRet = 0 then some (disconnect (transDestroy nodeOk p { s with seq := seq, sender := .idle }))
      else if nRet < 0 then some (transDestroy nodeOk p { s with seq := seq, sender := .idle })
      else some { s with
        seq := seq
        sender := .sent pMsg p s.seq
        sentAs := s.sentAs ++ [(.message pMsg.number, s.seq)]
        pending := s.pending ++ [.message pMsg.number] }
    | _ => none
  | .push nodeOk => match s.sender with
    | .sent pMsg p nMsgID =>
      some (transPush nodeOk p ⟨nMsgID, .message pMsg.number⟩ { s with sender := .idle })
    | _ => none
  | .subscribe allocOk => match transCreate allocOk s with
    | some (p, s) => some { s with
        subscribers := ⟨p, s.numbered, none⟩ :: s.subscribers
        numbered := s.numbered + 1 }
    | none => some s
  | .subTransmit x sent =>
    if x ∈ s.subscribers ∧ x.nMsgID = none then
      let (nRet, seq) := mqttSubscribe s.seq sent
      let s' := { s with seq := seq, subscribers := s.subscribers.erase x }
      -- both error returns leave the record where it is
      if nRet ≤ 0 then some s'
      else some { s' with
        subscribers := { x with nMsgID := some s.seq } :: s.subscribers.erase x
        sentAs := s.sentAs ++ [(.topic x.topic, s.seq)]
        pending := s.pending ++ [.topic x.topic] }
    else none
  | .subPush x nodeOk =>
    if x ∈ s.subscribers then
      match x.nMsgID with
      | some nMsgID => some (transPush nodeOk x.pTrans ⟨nMsgID, .topic x.topic⟩
          { s with subscribers := s.subscribers.erase x })
      | none => none
    else none
  | .received _ => if s.connected then some s else none
  | .ack nMsgID r nodeOk =>
    if s.connected ∧ ∀ q ∈ r, (q, nMsgID) ∈ s.sentAs then
      match transGet s nMsgID with
      | some p => some (transDestroy nodeOk p (acknowledge r s))
      | none => some (acknowledge r s)
    else none

section Step

variable {s t : Context}

theorem transCreate_cases {allocOk : Bool} {p : Nat} (h : transCreate allocOk s = some (p, t)) :
    ∃ free allocated, t = { s with xFreeTransList := free, allocated := allocated } ∧ ∀ q,
      free.count q + (if p = q then 1 else 0) + (if q < s.allocated then 1 else 0) =
        s.xFreeTransList.count q + if q < allocated then 1 else 0 := by
  unfold transCreate at h
  split at h
  · rename_i p' free hfree
    cases h
    refine ⟨free, s.allocated, rfl, fun q => ?_⟩
    rw [hfree, List.count_cons]
    simp
  · rename_i hfree
    split at h
    · cases h
      refine ⟨[], s.allocated + 1, by rw [← hfree], fun q => ?_⟩
      rw [hfree]
      split_ifs <;> omega
    · cases h

theorem step_connack (h : step s .connack = some t) : t = { s with connected := true } := by
  simp only [step, Option.ite_none_left_eq_some, Option.some.injEq] at h
  exact h.2.symm

theorem step_pop (h : step s .pop = some t) : ∃ pMsg rest, s.sender = .idle ∧
    s.xSendMsgPool = pMsg :: rest ∧
      t = { s with xSendMsgPool := rest, sender := .popped pMsg } := by
  simp only [step] at h
  split at h
  · rename_i pMsg rest hsender hpool
    simp only [Option.ite_none_right_eq_some, Option.some.injEq] at h
    exact ⟨pMsg, rest, hsender, hpool, h.2.symm⟩
  · cases h

/-- `mqtt_publish` never returns 0, so that no plain message ends the connection. -/
theorem step_plain {o : Outcome} (h : step s (.plain o) = some t) : ∃ pMsg,
    s.sender = .popped pMsg ∧ ¬ (pMsg.nQoS = 1 ∨ pMsg.nQoS = 2) ∧
      t = { s with sender := .idle } := by
  have ho : mqttPublish o ≠ 0 := by cases o <;> decide
  cases hsender : s.sender with
  | popped pMsg =>
    simp only [step, hsender, ho, and_false, if_false, Option.ite_none_left_eq_some,
      Option.some.injEq] at h
    exact ⟨pMsg, rfl, h.1, h.2.symm⟩
  | _ => simp [step, hsender] at h

theorem step_create {allocOk : Bool} (h : step s (.create allocOk) = some t) : ∃ pMsg,
    s.sender = .popped pMsg ∧
      ((transCreate allocOk s = none ∧ t = { s with sender := .idle }) ∨
        ∃ p u, transCreate allocOk s = some (p, u) ∧ t = { u with sender := .created pMsg p }) := by
  cases hsender : s.sender with
  | popped pMsg =>
    simp only [step, hsender] at h
    split at h
    · refine ⟨pMsg, rfl, ?_⟩
      cases hc : transCreate allocOk s with
      | none =>
        simp only [hc, Option.some.injEq] at h
        exact .inl ⟨rfl, h.symm⟩
      | some r =>
        simp only [hc, Option.some.injEq] at h
        exact .inr ⟨r.1, r.2, rfl, h.symm⟩
    · cases h
  | _ => simp [step, hsender] at h

theorem step_transmit {o : Outcome} {nodeOk : Bool} (h : step s (.transmit o nodeOk) = some t) :
    ∃ pMsg p, s.sender = .created pMsg p ∧
      ((o = .sent ∧ t = { s with
          seq := s.seq + 1
          sender := .sent pMsg p s.seq
          sentAs := s.sentAs ++ [(.message pMsg.number, s.seq)]
          pending := s.pending ++ [.message pMsg.number] }) ∨
        (o ≠ .sent ∧ ∃ seq, t = transDestroy nodeOk p { s with seq := seq, sender := .idle })) := by
  cases hsender : s.sender with
  | created pMsg p =>
    refine ⟨pMsg, p, rfl, ?_⟩
    cases o with
    | sent =>
      simp only [step, hsender, mqttPublishWithQos] at h
      cases h
      exact .inl ⟨rfl, rfl⟩
    | _ =>
      simp only [step, hsender, mqttPublishWithQos] at h
      cases h
      exact .inr ⟨nofun, _, rfl⟩
  | _ => simp [step, hsender] at h

theorem step_push {nodeOk : Bool} (h : step s (.push nodeOk) = some t) : ∃ pMsg p nMsgID,
    s.sender = .sent pMsg p nMsgID ∧
      t = transPush nodeOk p ⟨nMsgID, .message pMsg.number⟩ { s with sender := .idle } := by
  cases hsender : s.sender with
  | sent pMsg p nMsgID =>
    simp only [step, hsender, Option.some.injEq] at h
    exact ⟨pMsg, p, nMsgID, rfl, h.symm⟩
  | _ => simp [step, hsender] at h

theorem step_subscribe {allocOk : Bool} (h : step s (.subscribe allocOk) = some t) :
    t = s ∨ ∃ p u, transCreate allocOk s = some (p, u) ∧ t = { u with
      subscribers := ⟨p, u.numbered, none⟩ :: u.subscribers
      numbered := u.numbered + 1 } := by
  simp only [step] at h
  cases hc : transCreate allocOk s with
  | none =>
    simp only [hc, Option.some.injEq] at h
    exact .inl h.symm
  | some r =>
    simp only [hc, Option.some.injEq] at h
    exact .inr ⟨r.1, r.2, rfl, h.symm⟩

theorem step_subTransmit {x : Subscriber} {sent : Bool} (h : step s (.subTransmit x sent) = some t) :
    x ∈ s.subscribers ∧ x.nMsgID = none ∧
      ((sent = true ∧ t = { s with
          seq := s.seq + 1
          subscribers := { x with nMsgID := some s.seq } :: s.subscribers.erase x
          sentAs := s.sentAs ++ [(.topic x.topic, s.seq)]
          pending := s.pending ++ [.topic x.topic] }) ∨
        (sent = false ∧ t = { s with
          seq := s.seq + 1
          subscribers := s.subscribers.erase x })) := by
  simp only [step] at h
  split at h
  · rename_i hx
    cases sent with
    | true =>
      simp only [mqttSubscribe] at h
      cases h
      exact ⟨hx.1, hx.2, .inl ⟨rfl, rfl⟩⟩
    | false =>
      simp only [mqttSubscribe] at h
      cases h
      exact ⟨hx.1, hx.2, .inr ⟨rfl, rfl⟩⟩
  · cases h

theorem step_subPush {x : Subscriber} {nodeOk : Bool} (h : step s (.subPush x nodeOk) = some t) :
    x ∈ s.subscribers ∧ ∃ nMsgID, x.nMsgID = some nMsgID ∧
      t = transPush nodeOk x.pTrans ⟨nMsgID, .topic x.topic⟩
        { s with subscribers := s.subscribers.erase x } := by
  simp only [step] at h
  split at h
  · rename_i hx
    cases hid : x.nMsgID with
    | some nMsgID =>
      simp only [hid, Option.some.injEq] at h
      exact ⟨hx, nMsgID, rfl, h.symm⟩
    | none => simp [hid] at h
  · cases h

theorem step_received {nMsgID : UInt16} (h : step s (.received nMsgID) = some t) : t = s := by
  simp only [step, Option.ite_none_right_eq_some, Option.some.injEq] at h
  exact h.2.symm

theorem step_ack {nMsgID : UInt16} {r : Option Request} {nodeOk : Bool}
    (h : step s (.ack nMsgID r nodeOk) = some t) :
    (∃ p, transGet s nMsgID = some p ∧ t = transDestroy nodeOk p (acknowledge r s)) ∨
      (transGet s nMsgID = none ∧ t = acknowledge r s) := by
  simp only [step] at h
  split at h
  · cases hg : transGet s nMsgID with
    | some p =>
      simp only [hg, Option.some.injEq] at h
      exact .inl ⟨p, rfl, h.symm⟩
    | none =>
      simp only [hg, Option.some.injEq] at h
      exact .inr ⟨rfl, h.symm⟩
  · cases h

end Step

/-- The context after `FTE_MQTT_init`, with as many records as there was memory for. -/
def start (count : Nat) : Context where
  connected := false
  networkUp := false
  seq := 1
  xSendMsgPool := []
  xTransList := []
  xFreeTransList := List.range count
  records := fun _ => ⟨0, .topic 0⟩
  allocated := count
  sender := .idle
  subscribers := []
  numbered := 0
  accepted := []
  sentAs := []
  acked := []
  pending := []

end EdgeNode.Mqtt.Transactions
