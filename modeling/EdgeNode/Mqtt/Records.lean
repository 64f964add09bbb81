import EdgeNode.Mqtt.Transactions

/-! Where the transaction records are: no record is ever in two places, and the steps that lose
none and the requests that the in-flight list holds. -/

namespace EdgeNode.Mqtt.Transactions

open Runs

def Sender.records : Sender → List Nat
  | .created _ p => [p]
  | .sent _ p _ => [p]
  | _ => []

/-- The records that a task has taken from the free list and not yet put into the in-flight list. -/
def inHand (s : Context) : List Nat := s.sender.records ++ s.subscribers.map (·.pTrans)

def held (s : Context) : List Nat := s.xFreeTransList ++ s.xTransList ++ inHand s

def present (s : Context) (p : Nat) : Nat := if p < s.allocated then 1 else 0

def Distinct (s : Context) : Prop := ∀ p, (held s).count p ≤ present s p

/-- The steps at which no record is lost: the lists get their nodes, and no subscription fails. -/
def Lossless (s : Context) : Action → Prop
  | .transmit o nodeOk => o = .sent ∨ nodeOk = true
  | .push nodeOk => nodeOk = true
  | .subTransmit _ sent => sent = true
  | .subPush _ nodeOk => nodeOk = true
  | .ack nMsgID _ nodeOk => transGet s nMsgID = none ∨ nodeOk = true
  | _ => True

theorem count_start (count p : Nat) : (held (start count)).count p = present (start count) p := by
  have hc := (List.nodup_range (n := count)).count (a := p)
  simp only [held, inHand, start, Sender.records, List.map_nil, List.append_nil, present, hc,
    List.mem_range]
  rfl

theorem distinct_start (count : Nat) : Distinct (start count) :=
  fun p => Nat.le_of_eq (count_start count p)

theorem count_inHand (s : Context) (p : Nat) :
    (inHand s).count p = s.sender.records.count p + (s.subscribers.map (·.pTrans)).count p := by
  simp [inHand, List.count_append]

theorem count_held (s : Context) (p : Nat) : (held s).count p =
    s.xFreeTransList.count p + s.xTransList.count p +
      (s.sender.records.count p + (s.subscribers.map (·.pTrans)).count p) := by
  simp only [held, List.count_append, count_inHand]

theorem Distinct.not_mem_trans {s : Context} {p : Nat} (h : Distinct s) (hp : p ∈ inHand s) :
    p ∉ s.xTransList := by
  intro ht
  have hc := h p
  have hi := List.count_pos_iff.mpr hp
  have ht := List.count_pos_iff.mpr ht
  simp only [count_held, present] at hc
  rw [count_inHand] at hi
  split at hc <;> omega

theorem count_erase_of_mem {p : Nat} {l : List Nat} (hp : p ∈ l) (x : Nat) :
    l.count x = (l.erase p).count x + if p = x then 1 else 0 := by
  rw [(List.perm_cons_erase hp).count_eq x, List.count_cons]
  simp

theorem count_map_erase {x : Subscriber} {l : List Subscriber} (hx : x ∈ l) (p : Nat) :
    (l.map (·.pTrans)).count p =
      ((l.erase x).map (·.pTrans)).count p + if x.pTrans = p then 1 else 0 := by
  have hp := ((List.perm_cons_erase hx).map (·.pTrans)).count_eq p
  rw [hp, List.map_cons, List.count_cons]
  simp

/-- From `s` to `t` no record comes to a second place, and none is lost if `lossless`. -/
def Moves (lossless : Prop) (s t : Context) : Prop :=
  ∀ p, (held t).count p + present s p ≤ (held s).count p + present t p ∧
    (lossless → (held t).count p + present s p = (held s).count p + present t p)

theorem Moves.of_eq {lossless : Prop} {s t : Context} (hf : t.xFreeTransList = s.xFreeTransList)
    (ht : t.xTransList = s.xTransList) (hh : inHand t = inHand s) (ha : t.allocated = s.allocated) :
    Moves lossless s t := by
  intro p
  simp only [held, present, hf, ht, hh, ha]
  exact ⟨Nat.le_refl _, fun _ => trivial⟩

theorem transDestroy_mem (nodeOk : Bool) {s : Context} {p : Nat} (hp : p ∈ s.xTransList) :
    Moves (nodeOk = true) s (transDestroy nodeOk p s) := by
  intro q
  have he := count_erase_of_mem hp q
  have hh : inHand (transDestroy nodeOk p s) = inHand s := rfl
  simp only [count_held, ← count_inHand, hh]
  cases nodeOk with
  | true =>
    simp only [transDestroy, present, if_true, List.count_append, List.count_singleton, beq_iff_eq]
    omega
  | false =>
    simp only [transDestroy, present, Bool.false_eq_true, if_false]
    refine ⟨?_, fun h => h.elim⟩
    split_ifs at he <;> omega

theorem transDestroy_not_mem (nodeOk : Bool) {s : Context} {p : Nat} (hp : p ∉ s.xTransList)
    (q : Nat) :
    (held (transDestroy nodeOk p s)).count q ≤ (held s).count q + (if p = q then 1 else 0) ∧
      (nodeOk = true →
        (held (transDestroy nodeOk p s)).count q = (held s).count q + if p = q then 1 else 0) := by
  simp only [held, inHand, transDestroy, List.erase_of_not_mem hp]
  cases nodeOk with
  | true =>
    simp only [if_true, List.count_append, List.count_singleton, beq_iff_eq]
    omega
  | false => exact ⟨Nat.le_add_right _ _, fun h => nomatch h⟩

theorem transPush_held (nodeOk : Bool) {s : Context} {p : Nat} {t : Trans} (q : Nat) :
    (held (transPush nodeOk p t s)).count q ≤ (held s).count q + (if p = q then 1 else 0) ∧
      (nodeOk = true →
        (held (transPush nodeOk p t s)).count q = (held s).count q + if p = q then 1 else 0) := by
  simp only [held, inHand, transPush]
  cases nodeOk with
  | true =>
    simp only [if_true, List.count_append, List.count_singleton, beq_iff_eq]
    omega
  | false => exact ⟨Nat.le_add_right _ _, fun h => nomatch h⟩

theorem Moves.of_count {lossless : Prop} {s t : Context}
    (h : ∀ p, (held t).count p + present s p = (held s).count p + present t p) :
    Moves lossless s t :=
  fun p => ⟨Nat.le_of_eq (h p), fun _ => h p⟩

theorem moves_create {s t : Context} {allocOk : Bool} (h : step s (.create allocOk) = some t) :
    Moves (Lossless s (.create allocOk)) s t := by
  obtain ⟨pMsg, hsender, ⟨-, rfl⟩ | ⟨p, u, hc, rfl⟩⟩ := step_create h
  · exact .of_eq rfl rfl (by simp [inHand, hsender, Sender.records]) rfl
  · obtain ⟨free, allocated, rfl, hcount⟩ := transCreate_cases hc
    refine .of_count fun q => ?_
    have hq := hcount q
    simp only [count_held, hsender, Sender.records, List.count_nil, List.count_singleton,
      beq_iff_eq, present]
    omega

theorem moves_subscribe {s t : Context} {allocOk : Bool}
    (h : step s (.subscribe allocOk) = some t) : Moves (Lossless s (.subscribe allocOk)) s t := by
  obtain rfl | ⟨p, u, hc, rfl⟩ := step_subscribe h
  · exact .of_eq rfl rfl rfl rfl
  · obtain ⟨free, allocated, rfl, hcount⟩ := transCreate_cases hc
    refine .of_count fun q => ?_
    have hq := hcount q
    simp only [count_held, List.map_cons, List.count_cons, beq_iff_eq, present]
    omega

theorem moves_transmit {s t : Context} {o : Outcome} {nodeOk : Bool} (hd : Distinct s)
    (h : step s (.transmit o nodeOk) = some t) : Moves (Lossless s (.transmit o nodeOk)) s t := by
  obtain ⟨pMsg, p, hsender, ⟨-, rfl⟩ | ⟨ho, seq, rfl⟩⟩ := step_transmit h
  · exact .of_eq rfl rfl (by simp [inHand, hsender, Sender.records]) rfl
  · have hp : p ∉ s.xTransList := hd.not_mem_trans (by simp [inHand, hsender, Sender.records])
    intro q
    obtain ⟨hle, heq⟩ := transDestroy_not_mem nodeOk
      (s := { s with seq := seq, sender := .idle }) hp q
    simp only [Lossless, ho, false_or]
    simp only [count_held, hsender, Sender.records, List.count_nil, List.count_singleton,
      beq_iff_eq, present, transDestroy] at hle heq ⊢
    refine ⟨by omega, fun hn => ?_⟩
    have heq := heq hn
    omega

theorem moves_push {s t : Context} {nodeOk : Bool} (h : step s (.push nodeOk) = some t) :
    Moves (Lossless s (.push nodeOk)) s t := by
  obtain ⟨pMsg, p, nMsgID, hsender, rfl⟩ := step_push h
  intro q
  obtain ⟨hle, heq⟩ := transPush_held nodeOk (s := { s with sender := .idle }) (p := p)
    (t := ⟨nMsgID, .message pMsg.number⟩) q
  simp only [count_held, hsender, Sender.records, List.count_nil, List.count_singleton,
    beq_iff_eq, present, transPush, Lossless] at hle heq ⊢
  refine ⟨by omega, fun hn => ?_⟩
  have heq := heq hn
  omega

theorem moves_subTransmit {s t : Context} {x : Subscriber} {sent : Bool}
    (h : step s (.subTransmit x sent) = some t) : Moves (Lossless s (.subTransmit x sent)) s t := by
  obtain ⟨hx, -, ⟨-, rfl⟩ | ⟨rfl, rfl⟩⟩ := step_subTransmit h
  · refine .of_count fun q => ?_
    have hq := count_map_erase hx q
    simp only [count_held, List.map_cons, List.count_cons, beq_iff_eq, present]
    omega
  · intro q
    have hq := count_map_erase hx q
    simp only [count_held, present, Lossless]
    exact ⟨by omega, fun hn => nomatch hn⟩

theorem moves_subPush {s t : Context} {x : Subscriber} {nodeOk : Bool}
    (h : step s (.subPush x nodeOk) = some t) : Moves (Lossless s (.subPush x nodeOk)) s t := by
  obtain ⟨hx, nMsgID, -, rfl⟩ := step_subPush h
  intro q
  have hc := count_map_erase hx q
  obtain ⟨hle, heq⟩ := transPush_held nodeOk
    (s := { s with subscribers := s.subscribers.erase x }) (p := x.pTrans)
    (t := ⟨nMsgID, .topic x.topic⟩) q
  simp only [count_held, present, transPush, Lossless] at hle heq ⊢
  refine ⟨by omega, fun hn => ?_⟩
  have heq := heq hn
  omega

theorem mem_of_transGet {s : Context} {nMsgID : UInt16} {p : Nat} (h : transGet s nMsgID = some p) :
    p ∈ s.xTransList ∧ (s.records p).nMsgID = nMsgID :=
  ⟨List.mem_of_find?_eq_some h, by simpa using List.find?_some h⟩

@[simp] theorem held_acknowledge (r : Option Request) (s : Context) :
    held (acknowledge r s) = held s := by
  cases r <;> rfl

theorem moves_ack {s t : Context} {nMsgID : UInt16} {r : Option Request} {nodeOk : Bool}
    (h : step s (.ack nMsgID r nodeOk) = some t) : Moves (Lossless s (.ack nMsgID r nodeOk)) s t := by
  have hsame : (acknowledge r s).xTransList = s.xTransList ∧
      (acknowledge r s).allocated = s.allocated := by
    cases r <;> exact ⟨rfl, rfl⟩
  obtain ⟨p, hg, rfl⟩ | ⟨-, rfl⟩ := step_ack h
  · intro q
    have hm := transDestroy_mem nodeOk (s := acknowledge r s) (p := p)
      (by rw [hsame.1]; exact (mem_of_transGet hg).1) q
    simpa [present, hsame.2, Lossless, hg, transDestroy] using hm
  · intro q
    simp [present, hsame.2]

/-- What a step does to the places of the records. -/
theorem moves_step {s t : Context} {a : Action} (hd : Distinct s) (h : step s a = some t) :
    Moves (Lossless s a) s t := by
  cases a with
  | connack => exact step_connack h ▸ .of_eq rfl rfl rfl rfl
  | disconnect | network up =>
    cases h
    exact .of_eq rfl rfl rfl rfl
  | publish nQoS allocOk nodeOk =>
    cases h
    unfold publish
    split <;> exact .of_eq rfl rfl rfl rfl
  | pop =>
    obtain ⟨pMsg, rest, hsender, -, rfl⟩ := step_pop h
    exact .of_eq rfl rfl (by simp [inHand, hsender, Sender.records]) rfl
  | plain o =>
    obtain ⟨pMsg, hsender, -, rfl⟩ := step_plain h
    exact .of_eq rfl rfl (by simp [inHand, hsender, Sender.records]) rfl
  | create allocOk => exact moves_create h
  | transmit o nodeOk => exact moves_transmit hd h
  | push nodeOk => exact moves_push h
  | subscribe allocOk => exact moves_subscribe h
  | subTransmit x sent => exact moves_subTransmit h
  | subPush x nodeOk => exact moves_subPush h
  | received nMsgID => exact step_received h ▸ .of_eq rfl rfl rfl rfl
  | ack nMsgID r nodeOk => exact moves_ack h

theorem distinct_step {s t : Context} {a : Action} (hd : Distinct s) (h : step s a = some t) :
    Distinct t := by
  intro p
  have hm := (moves_step hd h p).1
  have hp := hd p
  omega

theorem distinct_of_run {count : Nat} {acts : List Action} {s : Context}
    (h : exec step acts (start count) = some s) : Distinct s :=
  inv_of_takes (G := fun _ _ => True) (distinct_start count) (fun _ _ _ hd _ => distinct_step hd)
    (fun _ _ _ => trivial) ⟨acts, List.prefix_rfl, h⟩

end EdgeNode.Mqtt.Transactions
