import EdgeNode.Mqtt.Conservation

/-! The steps at which no accepted message is lost before the broker has acknowledged it. -/

namespace EdgeNode.Mqtt.Transactions

open Runs

def Sender.message? : Sender → Option Message
  | .idle => none
  | .popped pMsg | .created pMsg _ | .sent pMsg _ _ => some pMsg

/-- The message is acknowledged, in the send pool, under transmission or in the in-flight list. -/
def Kept (s : Context) (m : Nat) : Prop :=
  .message m ∈ s.acked ∨ m ∈ s.xSendMsgPool.map (·.number) ∨
    m ∈ s.sender.message?.map (·.number) ∨ .message m ∈ inFlight s

def NoneLost (s : Context) : Prop := ∀ m ∈ s.accepted, Kept s m

/-- The steps that keep every message: memory for it and for its record, a transmission that
succeeds, and an acknowledgement that takes no record but its own. -/
def Retains (s : Context) : Action → Prop
  | .publish nQoS allocOk nodeOk => s.connected = true → nQoS = 1 ∨ nQoS = 2 →
      allocOk = true ∧ nodeOk = true
  | .create allocOk => s.xFreeTransList ≠ [] ∨ allocOk = true
  | .transmit o _ => o = .sent
  | .push nodeOk => nodeOk = true
  | .ack nMsgID r _ => ∀ p, transGet s nMsgID = some p → ∀ m, (s.records p).request = .message m →
      r = some (.message m)
  | _ => True

structure DeliveryInv (s : Context) : Prop where
  distinct : Distinct s
  kept : NoneLost s
  numbers : ∀ m ∈ s.accepted, m < s.numbered
  plain : ∀ x, x ∈ s.xSendMsgPool ∨ s.sender = .popped x →
    x.number < s.numbered ∧ (x.number ∈ s.accepted → x.nQoS = 1 ∨ x.nQoS = 2)

theorem deliveryInv_start (count : Nat) : DeliveryInv (start count) where
  distinct := distinct_start count
  kept m hm := by simp [start] at hm
  numbers m hm := by simp [start] at hm
  plain x hx := by simp [start] at hx

theorem Kept.mono {s t : Context} {m : Nat} (h : Kept s m) (ha : s.acked ⊆ t.acked)
    (hp : m ∈ s.xSendMsgPool.map (·.number) → Kept t m)
    (hs : m ∈ s.sender.message?.map (·.number) → Kept t m)
    (hf : .message m ∈ inFlight s → Kept t m) : Kept t m := by
  rcases h with h | h | h | h
  · exact .inl (ha h)
  · exact hp h
  · exact hs h
  · exact hf h

theorem Kept.of_pool {s : Context} {m : Nat} (h : m ∈ s.xSendMsgPool.map (·.number)) : Kept s m :=
  .inr (.inl h)

theorem Kept.of_sender {s : Context} {m : Nat} (h : m ∈ s.sender.message?.map (·.number)) :
    Kept s m :=
  .inr (.inr (.inl h))

theorem Kept.of_inFlight {s : Context} {m : Nat} (h : .message m ∈ inFlight s) : Kept s m :=
  .inr (.inr (.inr h))

theorem DeliveryInv.of_eq {s t : Context} (h : DeliveryInv s) (hd : Distinct t)
    (ha : t.accepted = s.accepted) (hp : t.xSendMsgPool = s.xSendMsgPool)
    (hn : s.numbered ≤ t.numbered) (hs : ∀ x, t.sender = .popped x → s.sender = .popped x)
    (hk : ∀ m, Kept s m → Kept t m) : DeliveryInv t where
  distinct := hd
  kept m hm := hk m (h.kept m (ha ▸ hm))
  numbers m hm := Nat.lt_of_lt_of_le (h.numbers m (ha ▸ hm)) hn
  plain x hx := by
    have hx := h.plain x (hx.imp (fun hx => hp ▸ hx) (hs x))
    rw [ha]
    exact ⟨Nat.lt_of_lt_of_le hx.1 hn, hx.2⟩

theorem delivery_publish {s : Context} {nQoS : UInt32} {allocOk nodeOk : Bool} (h : DeliveryInv s)
    (hr : Retains s (.publish nQoS allocOk nodeOk)) (hd : Distinct (publish nQoS allocOk nodeOk s)) :
    DeliveryInv (publish nQoS allocOk nodeOk s) := by
  unfold publish at hd ⊢
  split
  · rename_i hc
    rw [if_pos hc] at hd
    have hm' : ∀ m, m ∈ (if nQoS = 1 ∨ nQoS = 2 then s.accepted ++ [s.numbered] else s.accepted) →
        m ∈ s.accepted ∨ (m = s.numbered ∧ (nQoS = 1 ∨ nQoS = 2)) := by
      intro m hm
      split at hm
      · rename_i hq
        simpa [hq] using hm
      · exact .inl hm
    refine ⟨hd, fun m hm => ?_, fun m hm => ?_, fun x hx => ?_⟩
    · rcases hm' m hm with hm | ⟨rfl, hq⟩
      · refine (h.kept m hm).mono (fun _ hx => hx) (fun hx => .of_pool ?_) (fun hx => .of_sender hx)
          (fun hx => .of_inFlight hx)
        split
        · rw [List.map_append]
          exact List.mem_append_left _ hx
        · exact hx
      · obtain ⟨rfl, rfl⟩ := hr hc hq
        exact .of_pool (by simp)
    · rcases hm' m hm with hm | ⟨rfl, -⟩
      · exact Nat.lt_succ_of_lt (h.numbers m hm)
      · exact Nat.lt_succ_self _
    · have hx' : (x ∈ s.xSendMsgPool ∨ s.sender = .popped x) ∨ x = ⟨s.numbered, nQoS.toUInt8⟩ := by
        rcases hx with hx | hx
        · split at hx
          · rcases List.mem_append.mp hx with hx | hx
            · exact .inl (.inl hx)
            · exact .inr (List.mem_singleton.mp hx)
          · exact .inl (.inl hx)
        · exact .inl (.inr hx)
      rcases hx' with hx | rfl
      · obtain ⟨hlt, hq⟩ := h.plain x hx
        refine ⟨Nat.lt_succ_of_lt hlt, fun hm => ?_⟩
        rcases hm' _ hm with hm | ⟨he, -⟩
        · exact hq hm
        · exact absurd he (Nat.ne_of_lt hlt)
      · refine ⟨Nat.lt_succ_self _, fun hm => ?_⟩
        rcases hm' _ hm with hm | ⟨-, hq⟩
        · exact absurd (h.numbers _ hm) (Nat.lt_irrefl _)
        · exact hq.imp (congrArg UInt32.toUInt8) (congrArg UInt32.toUInt8)
  · exact h

theorem delivery_transmit {s t : Context} {nodeOk : Bool} (h : DeliveryInv s) (hd : Distinct t)
    (hs : step s (.transmit .sent nodeOk) = some t) : DeliveryInv t := by
  obtain ⟨pMsg, p, hsender, ⟨-, rfl⟩ | ⟨hne, -⟩⟩ := step_transmit hs
  · refine h.of_eq hd rfl rfl (Nat.le_refl _) (fun x hx => by cases hx) fun m hm => ?_
    exact hm.mono (fun _ hx => hx) (fun hx => .of_pool hx)
      (fun hx => .of_sender (by simpa [hsender, Sender.message?] using hx))
      (fun hx => .of_inFlight hx)
  · exact absurd rfl hne

theorem delivery_push {s t : Context} (h : DeliveryInv s) (hd : Distinct t)
    (hs : step s (.push true) = some t) : DeliveryInv t := by
  obtain ⟨pMsg, p, nMsgID, hsender, rfl⟩ := step_push hs
  have hp : p ∉ s.xTransList := h.distinct.not_mem_trans (by simp [inHand, hsender, Sender.records])
  refine h.of_eq hd rfl rfl (Nat.le_refl _) (fun x hx => by cases hx) fun m hm => ?_
  have hf := inFlight_transPush true (s := { s with sender := .idle })
    (t := ⟨nMsgID, .message pMsg.number⟩) hp
  refine hm.mono (fun _ hx => hx) (fun hx => .of_pool hx) (fun hx => .of_inFlight ?_)
    (fun hx => .of_inFlight ?_)
  · have hx : pMsg.number = m := by simpa [hsender, Sender.message?] using hx
    rw [hf, hx]
    exact List.mem_append_right _ (List.mem_singleton_self _)
  · rw [hf]
    exact List.mem_append_left _ hx

theorem delivery_pop {s t : Context} (h : DeliveryInv s) (hd : Distinct t)
    (hs : step s .pop = some t) : DeliveryInv t := by
  obtain ⟨pMsg, rest, hsender, hpool, rfl⟩ := step_pop hs
  refine ⟨hd, fun m hm => ?_, h.numbers, fun x hx => h.plain x (.inl ?_)⟩
  · refine (h.kept m hm).mono (fun _ hx => hx) (fun hx => ?_)
      (fun hx => by simp [hsender, Sender.message?] at hx) (fun hx => .of_inFlight hx)
    rw [hpool, List.map_cons, List.mem_cons] at hx
    rcases hx with rfl | hx
    · exact .of_sender (by simp [Sender.message?])
    · exact .of_pool hx
  · rw [hpool]
    rcases hx with hx | hx
    · exact List.mem_cons_of_mem _ hx
    · cases hx
      exact List.mem_cons_self ..

/-- What goes without a record was not accepted with QoS 1 or 2. -/
theorem delivery_plain {s t : Context} {o : Outcome} (h : DeliveryInv s) (hd : Distinct t)
    (hs : step s (.plain o) = some t) : DeliveryInv t := by
  obtain ⟨pMsg, hsender, hq, rfl⟩ := step_plain hs
  refine ⟨hd, fun m hm => ?_, h.numbers, fun x hx => ?_⟩
  · refine (h.kept m hm).mono (fun _ hx => hx) (fun hx => .of_pool hx) (fun hx => ?_)
      (fun hx => .of_inFlight hx)
    obtain rfl : pMsg.number = m := by simpa [hsender, Sender.message?] using hx
    exact absurd ((h.plain pMsg (.inr hsender)).2 hm) hq
  · rcases hx with hx | hx
    · exact h.plain x (.inl hx)
    · cases hx

theorem delivery_create {s t : Context} {allocOk : Bool} (h : DeliveryInv s)
    (hr : Retains s (.create allocOk)) (hd : Distinct t) (hs : step s (.create allocOk) = some t) :
    DeliveryInv t := by
  obtain ⟨pMsg, hsender, ⟨hc, -⟩ | ⟨p, u, hc, rfl⟩⟩ := step_create hs
  · unfold transCreate at hc
    split at hc
    · cases hc
    · rename_i hfree
      have hok : allocOk = true := hr.resolve_left (fun hn => hn hfree)
      simp [hok] at hc
  · obtain ⟨free, allocated, rfl, -⟩ := transCreate_cases hc
    refine h.of_eq hd rfl rfl (Nat.le_refl _) (fun x hx => by cases hx) fun m hm => ?_
    exact hm.mono (fun _ hx => hx) (fun hx => .of_pool hx)
      (fun hx => .of_sender (by simpa [hsender, Sender.message?] using hx))
      (fun hx => .of_inFlight hx)

theorem delivery_subscribe {s t : Context} {allocOk : Bool} (h : DeliveryInv s) (hd : Distinct t)
    (hs : step s (.subscribe allocOk) = some t) : DeliveryInv t := by
  obtain rfl | ⟨p, u, hc, rfl⟩ := step_subscribe hs
  · exact h
  · obtain ⟨free, allocated, rfl, -⟩ := transCreate_cases hc
    exact h.of_eq hd rfl rfl (Nat.le_succ _) (fun _ hx => hx) fun _ hm => hm

theorem delivery_subTransmit {s t : Context} {x : Subscriber} {sent : Bool} (h : DeliveryInv s)
    (hd : Distinct t) (hs : step s (.subTransmit x sent) = some t) : DeliveryInv t := by
  obtain ⟨-, -, ⟨-, rfl⟩ | ⟨-, rfl⟩⟩ := step_subTransmit hs
  · exact h.of_eq hd rfl rfl (Nat.le_refl _) (fun _ hx => hx) fun _ hm => hm
  · exact h.of_eq hd rfl rfl (Nat.le_refl _) (fun _ hx => hx) fun _ hm => hm

theorem delivery_subPush {s t : Context} {x : Subscriber} {nodeOk : Bool} (h : DeliveryInv s)
    (hd : Distinct t) (hs : step s (.subPush x nodeOk) = some t) : DeliveryInv t := by
  obtain ⟨hx, nMsgID, -, rfl⟩ := step_subPush hs
  have hp : x.pTrans ∉ s.xTransList :=
    h.distinct.not_mem_trans (List.mem_append_right _ (List.mem_map_of_mem hx))
  refine h.of_eq hd rfl rfl (Nat.le_refl _) (fun _ hx => hx) fun m hm => ?_
  refine hm.mono (fun _ hx => hx) (fun hx => .of_pool hx) (fun hx => .of_sender hx)
    (fun hf => .of_inFlight ?_)
  rw [inFlight_transPush nodeOk (s := { s with subscribers := s.subscribers.erase x }) hp]
  exact List.mem_append_left _ hf

theorem acked_acknowledge (r : Option Request) (s : Context) : s.acked ⊆ (acknowledge r s).acked := by
  cases r with
  | none => exact fun _ hx => hx
  | some q => exact List.subset_append_left _ _

theorem delivery_ack {s t : Context} {nMsgID : UInt16} {r : Option Request} {nodeOk : Bool}
    (h : DeliveryInv s) (hr : Retains s (.ack nMsgID r nodeOk)) (hd : Distinct t)
    (hs : step s (.ack nMsgID r nodeOk) = some t) : DeliveryInv t := by
  have hsame : ∀ r, acknowledge r s = { s with
      acked := (acknowledge r s).acked, pending := (acknowledge r s).pending } := by
    intro r
    cases r <;> rfl
  have hack := acked_acknowledge r s
  obtain ⟨p, hg, ht⟩ | ⟨-, ht⟩ := step_ack hs
  · rw [hsame] at ht
    subst ht
    refine h.of_eq hd rfl rfl (Nat.le_refl _) (fun _ hx => hx) fun m hm => ?_
    refine hm.mono hack (fun hx => .of_pool hx) (fun hx => .of_sender hx) fun hx => ?_
    obtain ⟨q, hq, he⟩ := List.mem_map.mp hx
    by_cases hqp : q = p
    · -- the record that goes is the message's own, so the message is acknowledged
      subst hqp
      have hrm := hr q hg m he
      subst hrm
      exact .inl (by simp [transDestroy, acknowledge])
    · exact .of_inFlight (List.mem_map.mpr ⟨q, (List.mem_erase_of_ne hqp).mpr hq, he⟩)
  · rw [hsame] at ht
    subst ht
    refine h.of_eq hd rfl rfl (Nat.le_refl _) (fun _ hx => hx) fun m hm => ?_
    exact hm.mono hack (fun hx => .of_pool hx) (fun hx => .of_sender hx) (fun hx => .of_inFlight hx)

theorem deliveryInv_step {s t : Context} {a : Action} (h : DeliveryInv s) (hr : Retains s a)
    (hs : step s a = some t) : DeliveryInv t := by
  have hd := distinct_step h.distinct hs
  cases a with
  | connack =>
    obtain rfl := step_connack hs
    exact h.of_eq hd rfl rfl (Nat.le_refl _) (fun _ hx => hx) fun _ hm => hm
  | disconnect | network up =>
    cases hs
    exact h.of_eq hd rfl rfl (Nat.le_refl _) (fun _ hx => hx) fun _ hm => hm
  | publish nQoS allocOk nodeOk =>
    cases hs
    exact delivery_publish h hr hd
  | transmit o nodeOk =>
    cases (hr : o = .sent)
    exact delivery_transmit h hd hs
  | push nodeOk =>
    cases (hr : nodeOk = true)
    exact delivery_push h hd hs
  | received nMsgID => exact step_received hs ▸ h
  | ack nMsgID r nodeOk => exact delivery_ack h hr hd hs
  | pop => exact delivery_pop h hd hs
  | plain o => exact delivery_plain h hd hs
  | create allocOk => exact delivery_create h hr hd hs
  | subscribe allocOk => exact delivery_subscribe h hd hs
  | subTransmit x sent => exact delivery_subTransmit h hd hs
  | subPush x nodeOk => exact delivery_subPush h hd hs

/-- In every run whose steps all retain their message, no accepted message is lost in any state. -/
theorem noneLost_of_retains {count : Nat} {acts : List Action} {s : Context}
    (hr : ∀ u a, Takes step (start count) acts u a → Retains u a)
    (hs : Visits step (start count) acts s) : NoneLost s :=
  (inv_of_takes (deliveryInv_start count) (fun _ _ _ => deliveryInv_step) hr hs).kept

/-- A message whose transmission fails is neither queued again nor reported. -/
theorem failed_transmit_loses :
    ∃ s, Visits step (start 1) [.connack, .network true, .publish 1 true true, .pop, .create true,
        .transmit .failed true] s ∧ ¬ NoneLost s := by
  refine ⟨_, ⟨_, List.prefix_rfl, rfl⟩, fun h => ?_⟩
  rcases h 0 (by decide) with hk | hk | hk | hk
  · exact absurd hk (by decide)
  · exact absurd hk (by decide)
  · cases hk
  · exact absurd hk (by decide)

theorem acknowledged_publish_kept :
    ∃ s, Visits step (start 1) [.connack, .network true, .publish 1 true true, .pop, .create true,
        .transmit .sent true, .push true, .ack 1 (some (.message 0)) true] s ∧
      s.accepted = [0] ∧ NoneLost s := by
  obtain ⟨s, hs, ha⟩ : ∃ s, exec step [.connack, .network true, .publish 1 true true, .pop,
      .create true, .transmit .sent true, .push true, .ack 1 (some (.message 0)) true] (start 1) =
        some s ∧ s.accepted = [0] := ⟨_, rfl, rfl⟩
  refine ⟨s, ⟨_, List.prefix_rfl, hs⟩, ha,
    noneLost_of_retains (takes_of_along ?_) ⟨_, List.prefix_rfl, hs⟩⟩
  refine ⟨trivial, fun _ h => ?_⟩
  cases h
  refine ⟨trivial, fun _ h => ?_⟩
  cases h
  refine ⟨fun _ _ => ⟨rfl, rfl⟩, fun _ h => ?_⟩
  cases h
  refine ⟨trivial, fun _ h => ?_⟩
  cases h
  refine ⟨.inr rfl, fun _ h => ?_⟩
  cases h
  refine ⟨rfl, fun _ h => ?_⟩
  cases h
  refine ⟨rfl, fun _ h => ?_⟩
  cases h
  refine ⟨fun p hp m hm => ?_, fun _ _ => trivial⟩
  cases hp
  cases hm
  rfl

end EdgeNode.Mqtt.Transactions
