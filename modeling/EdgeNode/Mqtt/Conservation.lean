import EdgeNode.Mqtt.Records

/-! The steps at which every transaction record stays accounted for, and the in-flight list stays
the list of the unacknowledged requests. -/

namespace EdgeNode.Mqtt.Transactions

open Runs

def inFlight (s : Context) : List Request := s.xTransList.map fun p => (s.records p).request

def Sender.request : Sender → List Request
  | .sent pMsg _ _ => [.message pMsg.number]
  | _ => []

def Subscriber.request (x : Subscriber) : Option Request := x.nMsgID.map fun _ => .topic x.topic

/-- The requests that are sent and not yet put into the in-flight list. -/
def sentInHand (s : Context) : List Request :=
  s.sender.request ++ s.subscribers.filterMap Subscriber.request

/-- Every record is in one place, and the in-flight list holds the unacknowledged requests of the
connection. -/
structure Conserved (s : Context) : Prop where
  records : ∀ p < s.allocated, (held s).count p = 1
  requests : (inFlight s ++ sentInHand s).Perm s.pending

/-- The steps that keep the pool: no record is lost, the connection ends with no request
outstanding, and an acknowledgement finds the record of the request it is for. -/
def Keeps (s : Context) (a : Action) : Prop :=
  Lossless s a ∧ match a with
    | .disconnect => s.pending = []
    | .ack nMsgID r _ => match transGet s nMsgID with
      | some p => r = some (s.records p).request
      | none => ∀ q ∈ r, q ∉ s.pending
    | _ => True

structure PoolInv (s : Context) : Prop where
  count : ∀ p, (held s).count p = present s p
  requests : (inFlight s ++ sentInHand s).Perm s.pending

theorem PoolInv.distinct {s : Context} (h : PoolInv s) : Distinct s :=
  fun p => Nat.le_of_eq (h.count p)

theorem PoolInv.conserved {s : Context} (h : PoolInv s) : Conserved s where
  records p hp := by rw [h.count p, present, if_pos hp]
  requests := h.requests

theorem poolInv_start (count : Nat) : PoolInv (start count) where
  count := count_start count
  requests := List.Perm.refl _

theorem inFlight_transPush (nodeOk : Bool) {s : Context} {p : Nat} {t : Trans}
    (hp : p ∉ s.xTransList) : inFlight (transPush nodeOk p t s) =
      inFlight s ++ if nodeOk then [t.request] else [] := by
  have hmap : s.xTransList.map (fun q => (Function.update s.records p t q).request) = inFlight s := by
    refine List.map_congr_left fun q hq => ?_
    have hne : q ≠ p := fun he => hp (he ▸ hq)
    rw [Function.update_of_ne hne]
  cases nodeOk with
  | true =>
    rw [inFlight, transPush, if_pos rfl, List.map_append, hmap]
    simp
  | false =>
    rw [inFlight, transPush, if_neg Bool.false_ne_true, hmap]
    simp

theorem inFlight_transDestroy (nodeOk : Bool) {s : Context} {p : Nat} (hp : p ∈ s.xTransList) :
    (inFlight s).Perm ((s.records p).request :: inFlight (transDestroy nodeOk p s)) :=
  (List.perm_cons_erase hp).map _

theorem sentInHand_erase {s : Context} {x : Subscriber} (hx : x ∈ s.subscribers) :
    (s.subscribers.filterMap Subscriber.request).Perm
      (x.request.toList ++ (s.subscribers.erase x).filterMap Subscriber.request) := by
  have hp := (List.perm_cons_erase hx).filterMap Subscriber.request
  rw [List.filterMap_cons] at hp
  cases hr : x.request with
  | none => simpa [hr] using hp
  | some r => simpa [hr] using hp

theorem requests_of_eq {s t : Context} (h : (inFlight s ++ sentInHand s).Perm s.pending)
    (hf : inFlight t = inFlight s) (hs : sentInHand t = sentInHand s) (hp : t.pending = s.pending) :
    (inFlight t ++ sentInHand t).Perm t.pending := by
  rw [hf, hs, hp]
  exact h

theorem requests_transmit {s t : Context} {o : Outcome} {nodeOk : Bool} (hd : Distinct s)
    (hr : (inFlight s ++ sentInHand s).Perm s.pending) (h : step s (.transmit o nodeOk) = some t) :
    (inFlight t ++ sentInHand t).Perm t.pending := by
  obtain ⟨pMsg, p, hsender, ⟨-, rfl⟩ | ⟨-, seq, rfl⟩⟩ := step_transmit h
  · refine List.perm_iff_count.mpr fun q => ?_
    have hq := hr.count_eq q
    simp only [inFlight, sentInHand, hsender, Sender.request, List.nil_append, List.cons_append,
      List.count_append, List.count_cons, List.count_nil] at hq ⊢
    omega
  · have hp : p ∉ s.xTransList := hd.not_mem_trans (by simp [inHand, hsender, Sender.records])
    refine requests_of_eq hr ?_ ?_ rfl
    · simp [inFlight, transDestroy, List.erase_of_not_mem hp]
    · simp [sentInHand, hsender, Sender.request, transDestroy]

theorem requests_push {s t : Context} (hd : Distinct s)
    (hr : (inFlight s ++ sentInHand s).Perm s.pending) (h : step s (.push true) = some t) :
    (inFlight t ++ sentInHand t).Perm t.pending := by
  obtain ⟨pMsg, p, nMsgID, hsender, rfl⟩ := step_push h
  have hp : p ∉ s.xTransList := hd.not_mem_trans (by simp [inHand, hsender, Sender.records])
  rw [inFlight_transPush true (s := { s with sender := .idle }) hp]
  simpa [sentInHand, hsender, Sender.request, transPush, inFlight] using hr

theorem requests_subTransmit {s t : Context} {x : Subscriber}
    (hr : (inFlight s ++ sentInHand s).Perm s.pending) (h : step s (.subTransmit x true) = some t) :
    (inFlight t ++ sentInHand t).Perm t.pending := by
  obtain ⟨hx, hid, ⟨-, rfl⟩ | ⟨hf, -⟩⟩ := step_subTransmit h
  · refine List.perm_iff_count.mpr fun q => ?_
    have hq := hr.count_eq q
    have heq := (sentInHand_erase hx).count_eq q
    simp only [inFlight, sentInHand, Subscriber.request, hid, Option.map_none, Option.map_some,
      Option.toList_none, List.nil_append, List.filterMap_cons, List.count_append, List.count_cons,
      List.count_nil] at hq heq ⊢
    omega
  · cases hf

theorem requests_subPush {s t : Context} {x : Subscriber} (hd : Distinct s)
    (hr : (inFlight s ++ sentInHand s).Perm s.pending) (h : step s (.subPush x true) = some t) :
    (inFlight t ++ sentInHand t).Perm t.pending := by
  obtain ⟨hx, nMsgID, hid, rfl⟩ := step_subPush h
  have hp : x.pTrans ∉ s.xTransList :=
    hd.not_mem_trans (List.mem_append_right _ (List.mem_map_of_mem hx))
  rw [inFlight_transPush true (s := { s with subscribers := s.subscribers.erase x }) hp]
  refine List.perm_iff_count.mpr fun q => ?_
  have hq := hr.count_eq q
  have heq := (sentInHand_erase hx).count_eq q
  simp only [inFlight, sentInHand, transPush, Subscriber.request, hid, Option.map_some,
    Option.toList_some, if_true, List.count_append, List.count_cons, List.count_nil] at hq heq ⊢
  omega

theorem requests_ack {s t : Context} {nMsgID : UInt16} {r : Option Request} {nodeOk : Bool}
    (hr : (inFlight s ++ sentInHand s).Perm s.pending) (hk : Keeps s (.ack nMsgID r nodeOk))
    (h : step s (.ack nMsgID r nodeOk) = some t) :
    (inFlight t ++ sentInHand t).Perm t.pending := by
  have hk := hk.2
  obtain ⟨p, hg, rfl⟩ | ⟨hg, rfl⟩ := step_ack h
  · simp only [hg] at hk
    subst hk
    have hf := inFlight_transDestroy nodeOk (mem_of_transGet hg).1
    have hrest := (hf.append_right (sentInHand s)).symm.trans hr
    have hm : (s.records p).request ∈ s.pending := hrest.subset (List.mem_cons_self ..)
    exact (hrest.trans (List.perm_cons_erase hm)).cons_inv
  · simp only [hg] at hk
    cases r with
    | none => exact hr
    | some q =>
      have hq : q ∉ s.pending := hk q rfl
      simpa [acknowledge, inFlight, sentInHand, List.erase_of_not_mem hq] using hr

theorem requests_step {s t : Context} {a : Action} (hd : Distinct s) (hk : Keeps s a)
    (hr : (inFlight s ++ sentInHand s).Perm s.pending) (h : step s a = some t) :
    (inFlight t ++ sentInHand t).Perm t.pending := by
  cases a with
  | connack => exact step_connack h ▸ hr
  | disconnect =>
    cases h
    have hp : s.pending = [] := hk.2
    rw [hp] at hr
    exact hr
  | network up =>
    cases h
    exact hr
  | publish nQoS allocOk nodeOk =>
    cases h
    unfold publish
    split <;> exact hr
  | pop =>
    obtain ⟨pMsg, rest, hsender, -, rfl⟩ := step_pop h
    exact requests_of_eq hr rfl (by simp [sentInHand, hsender, Sender.request]) rfl
  | plain o =>
    obtain ⟨pMsg, hsender, -, rfl⟩ := step_plain h
    exact requests_of_eq hr rfl (by simp [sentInHand, hsender, Sender.request]) rfl
  | create allocOk =>
    obtain ⟨pMsg, hsender, ⟨-, rfl⟩ | ⟨p, u, hc, rfl⟩⟩ := step_create h
    · exact requests_of_eq hr rfl (by simp [sentInHand, hsender, Sender.request]) rfl
    · obtain ⟨free, allocated, rfl, -⟩ := transCreate_cases hc
      exact requests_of_eq hr rfl (by simp [sentInHand, hsender, Sender.request]) rfl
  | transmit o nodeOk => exact requests_transmit hd hr h
  | push nodeOk =>
    cases (hk.1 : nodeOk = true)
    exact requests_push hd hr h
  | subscribe allocOk =>
    obtain rfl | ⟨p, u, hc, rfl⟩ := step_subscribe h
    · exact hr
    · obtain ⟨free, allocated, rfl, -⟩ := transCreate_cases hc
      exact requests_of_eq hr rfl rfl rfl
  | subTransmit x sent =>
    cases (hk.1 : sent = true)
    exact requests_subTransmit hr h
  | subPush x nodeOk =>
    cases (hk.1 : nodeOk = true)
    exact requests_subPush hd hr h
  | received nMsgID => exact step_received h ▸ hr
  | ack nMsgID r nodeOk => exact requests_ack hr hk h

theorem poolInv_step {s t : Context} {a : Action} (hi : PoolInv s) (hk : Keeps s a)
    (h : step s a = some t) : PoolInv t where
  count p := by
    have hm := (moves_step hi.distinct h p).2 hk.1
    have hp := hi.count p
    omega
  requests := requests_step hi.distinct hk hi.requests h

/-- In every run whose steps all keep the pool, it is conserved in every state. -/
theorem conserved_of_keeps {count : Nat} {acts : List Action} {s : Context}
    (hk : ∀ u a, Takes step (start count) acts u a → Keeps u a)
    (hs : Visits step (start count) acts s) : Conserved s :=
  (inv_of_takes (poolInv_start count) (fun _ _ _ => poolInv_step) hk hs).conserved

/-- A subscription that cannot be sent keeps its record. -/
theorem failed_subscribe_leaks :
    ∃ s, Visits step (start 1) [.connack, .subscribe true, .subTransmit ⟨0, 0, none⟩ false] s ∧
      ¬ Conserved s := by
  refine ⟨_, ⟨_, List.prefix_rfl, rfl⟩, fun h => ?_⟩
  have hc := h.records 0 (by decide)
  revert hc
  decide

theorem answered_subscribe_conserved :
    ∃ s, Visits step (start 1) [.connack, .subscribe true, .subTransmit ⟨0, 0, none⟩ true,
        .subPush ⟨0, 0, some 1⟩ true, .ack 1 (some (.topic 0)) true] s ∧
      s.acked = [.topic 0] ∧ Conserved s := by
  obtain ⟨s, hs, ha⟩ : ∃ s, exec step [.connack, .subscribe true,
      .subTransmit ⟨0, 0, none⟩ true, .subPush ⟨0, 0, some 1⟩ true,
      .ack 1 (some (.topic 0)) true] (start 1) = some s ∧ s.acked = [.topic 0] := ⟨_, rfl, rfl⟩
  refine ⟨s, ⟨_, List.prefix_rfl, hs⟩, ha,
    conserved_of_keeps (takes_of_along ?_) ⟨_, List.prefix_rfl, hs⟩⟩
  refine ⟨⟨trivial, trivial⟩, fun _ h => ?_⟩
  cases h
  refine ⟨⟨trivial, trivial⟩, fun _ h => ?_⟩
  cases h
  refine ⟨⟨rfl, trivial⟩, fun _ h => ?_⟩
  cases h
  refine ⟨⟨rfl, trivial⟩, fun _ h => ?_⟩
  cases h
  exact ⟨⟨.inr rfl, rfl⟩, fun _ _ => trivial⟩

end EdgeNode.Mqtt.Transactions
