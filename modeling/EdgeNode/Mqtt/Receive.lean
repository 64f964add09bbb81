import EdgeNode.Lib.Segments
import EdgeNode.Mqtt.Packet

/-! `FTE_MQTT_recvPacket` in the loop of the connected state, over the byte stream of
the broker: its segments, or its records where `xSSL.bEnabled`. -/

namespace EdgeNode.Mqtt

open Segments

def recvBuffSize : Nat := 1024

/-- The zeroed receive buffer with the received bytes in front. -/
def fillBuff (acc : List UInt8) : List UInt8 :=
  acc ++ List.replicate (recvBuffSize - acc.length) 0

/-- The loop that reads on until `nPacketLen` bytes are there; an empty receive gives up. With TLS it
reads on by `FTE_SSL_recv(NULL, ..)`, whose session is looked up behind the null context: `none`, nothing
is defined from there on. Each round adds a byte to a buffer of `recvBuffSize`, so as many rounds are
enough. -/
def readRest (bEnabled : Bool) (nPacketLen : Nat) : Nat → List UInt8 → List (List UInt8) →
    Option (Option (List UInt8) × List (List UInt8))
  | 0, _, cs => some (none, cs)
  | k + 1, acc, cs =>
    if acc.length < nPacketLen then
      if bEnabled then none
      else
        match recv (recvBuffSize - acc.length) cs with
        | ([], cs) => some (none, cs)
        | (b :: bs, cs) => readRest bEnabled nPacketLen k (acc ++ b :: bs) cs
    else some (some acc, cs)

/-- The received bytes when `FTE_MQTT_RET_OK` is returned, and what is left of the stream. The first
read has its context with TLS too. -/
def recvPacket (bEnabled : Bool) (cs : List (List UInt8)) :
    Option (Option (List UInt8) × List (List UInt8)) :=
  match recv recvBuffSize cs with
  | (acc, cs) =>
    if acc.length < 2 then some (none, cs)
    else readRest bEnabled (packetLen (fillBuff acc)) (recvBuffSize + 1) acc cs

/-- One pass of the loop: the callback of `_pMsgCBs` that is called and the bytes it sees. -/
def receivePass (bEnabled : Bool) (cs : List (List UInt8)) :
    Option (Option (Nat × List UInt8) × List (List UInt8)) :=
  match recvPacket bEnabled cs with
  | none => none
  | some (none, cs) => some (none, cs)
  | some (some buf, cs) =>
    some (if msgType buf < 15 then (some (msgType buf, buf), cs) else (none, cs))

def receiveLoop (bEnabled : Bool) :
    Nat → List (List UInt8) → List (Nat × List UInt8) × List (List UInt8)
  | 0, cs => ([], cs)
  | k + 1, cs =>
    match receivePass bEnabled cs with
    | none => ([], cs)
    | some (d, cs) =>
      match receiveLoop bEnabled k cs with
      | (ds, cs) => (d.toList ++ ds, cs)

/-- Segments and bytes still to come: every pass takes one or the other. -/
def pending (cs : List (List UInt8)) : Nat := cs.length + cs.flatten.length

/-- What the handlers are given until the stream is used up. -/
def deliveries (bEnabled : Bool) (cs : List (List UInt8)) : List (Nat × List UInt8) :=
  (receiveLoop bEnabled (pending cs) cs).1

/-- `Completes bEnabled n acc cs p rest`: with `acc` received, the receives from `cs` on reach a
length of `n` with the bytes `p` and leave `rest`. -/
inductive Completes (bEnabled : Bool) (n : Nat) :
    List UInt8 → List (List UInt8) → List UInt8 → List (List UInt8) → Prop
  | done {acc cs} (h : n ≤ acc.length) : Completes bEnabled n acc cs acc cs
  | more {acc cs b cs' p rest} (hs : bEnabled = false) (h : acc.length < n)
      (hr : recv (recvBuffSize - acc.length) cs = (b, cs')) (hb : b ≠ [])
      (hc : Completes bEnabled n (acc ++ b) cs' p rest) : Completes bEnabled n acc cs p rest

/-- `Aligned bEnabled cs ps`: each packet of `ps` begins with a receive of at least two bytes and ends
with the first receive that reaches the length those bytes announce; with TLS that is the receive it
begins with. -/
inductive Aligned (bEnabled : Bool) : List (List UInt8) → List (List UInt8) → Prop
  | nil : Aligned bEnabled [] []
  | idle {cs ps} (h : Aligned bEnabled cs ps) : Aligned bEnabled ([] :: cs) ps
  | packet {cs acc cs' p rest ps} (hr : recv recvBuffSize cs = (acc, cs')) (h2 : 2 ≤ acc.length)
      (hc : Completes bEnabled (packetLen (fillBuff acc)) acc cs' p rest)
      (h : Aligned bEnabled rest ps) : Aligned bEnabled cs (p :: ps)

variable {bEnabled : Bool}

theorem pending_recv_lt {n : Nat} (hn : 0 < n) {cs : List (List UInt8)} (hcs : cs ≠ []) :
    pending (recv n cs).2 < pending cs := by
  cases cs with
  | nil => exact absurd rfl hcs
  | cons c cs =>
    by_cases h : c.length ≤ n
    · simp [recv, h, pending]
      omega
    · simp [recv, h, pending]
      omega

theorem pending_recv_le (n : Nat) (cs : List (List UInt8)) :
    pending (recv n cs).2 ≤ pending cs := by
  cases cs with
  | nil => simp [recv]
  | cons c cs =>
    by_cases h : c.length ≤ n
    · simp [recv, h, pending]
      omega
    · simp [recv, h, pending]

theorem recv_eq_flatten {n : Nat} {cs cs' : List (List UInt8)} {b : List UInt8}
    (h : recv n cs = (b, cs')) : b ++ cs'.flatten = cs.flatten := by
  simpa only [h] using recv_flatten n cs

theorem Completes.flatten {n : Nat} {acc p : List UInt8} {cs rest : List (List UInt8)}
    (h : Completes bEnabled n acc cs p rest) : p ++ rest.flatten = acc ++ cs.flatten := by
  induction h with
  | done h => rfl
  | more hs h hr hb hc ih => rw [ih, List.append_assoc, recv_eq_flatten hr]

theorem Completes.pending_le {n : Nat} {acc p : List UInt8} {cs rest : List (List UInt8)}
    (h : Completes bEnabled n acc cs p rest) : pending rest ≤ pending cs := by
  induction h with
  | done h => exact Nat.le_refl _
  | @more acc cs b cs' p rest hs h hr hb hc ih =>
    have hle := pending_recv_le (recvBuffSize - acc.length) cs
    rw [hr] at hle
    exact Nat.le_trans ih hle

theorem Completes.length_le {n : Nat} {acc p : List UInt8} {cs rest : List (List UInt8)}
    (h : Completes bEnabled n acc cs p rest) : acc.length ≤ p.length := by
  induction h with
  | done h => exact Nat.le_refl _
  | more hs h hr hb hc ih =>
    rw [List.length_append] at ih
    omega

/-- Enough rounds of the loop are exactly the completion of the packet. -/
theorem readRest_eq_some_iff {n k : Nat} {acc p : List UInt8} {cs rest : List (List UInt8)}
    (hk : recvBuffSize < acc.length + k) (ha : acc.length ≤ recvBuffSize) :
    readRest bEnabled n k acc cs = some (some p, rest) ↔ Completes bEnabled n acc cs p rest := by
  induction k generalizing acc cs with
  | zero => omega
  | succ k ih =>
    unfold readRest
    by_cases hn : acc.length < n
    · rw [if_pos hn]
      by_cases hs : bEnabled = true
      · rw [if_pos hs]
        refine iff_of_false (by simp) fun hc => ?_
        cases hc with
        | done h => omega
        | more hs' h hr hb hc => simp [hs] at hs'
      · rw [if_neg hs]
        have hlen := recv_length_le (recvBuffSize - acc.length) cs
        cases hr : recv (recvBuffSize - acc.length) cs with
        | mk b cs' =>
          rw [hr] at hlen
          cases b with
          | nil =>
            refine iff_of_false (by simp) fun hc => ?_
            cases hc with
            | done h => omega
            | more hs' h hr' hb hc =>
              rw [hr] at hr'
              exact hb (congrArg Prod.fst hr').symm
          | cons b bs =>
            simp only [List.length_cons] at hlen
            rw [ih (by simp; omega) (by simp; omega)]
            constructor
            · exact fun hc => .more (Bool.eq_false_iff.mpr hs) hn hr (by simp) hc
            · intro hc
              cases hc with
              | done h => omega
              | more hs' h hr' hb hc =>
                rw [hr] at hr'
                cases hr'
                exact hc
    · rw [if_neg hn]
      constructor
      · intro h
        cases h
        exact .done (by omega)
      · intro hc
        cases hc with
        | done h => rfl
        | more hs h hr hb hc => omega

theorem recvPacket_eq_some_iff {p : List UInt8} {cs rest : List (List UInt8)} :
    recvPacket bEnabled cs = some (some p, rest) ↔ ∃ acc cs', recv recvBuffSize cs = (acc, cs') ∧
      2 ≤ acc.length ∧ Completes bEnabled (packetLen (fillBuff acc)) acc cs' p rest := by
  unfold recvPacket
  cases hr : recv recvBuffSize cs with
  | mk acc cs' =>
    have hlen := recv_length_le recvBuffSize cs
    rw [hr] at hlen
    simp only
    by_cases h2 : acc.length < 2
    · rw [if_pos h2]
      refine iff_of_false (by simp) ?_
      rintro ⟨acc', cs'', h, h2', -⟩
      cases h
      omega
    · rw [if_neg h2, readRest_eq_some_iff (by omega) hlen]
      constructor
      · exact fun hc => ⟨acc, cs', rfl, by omega, hc⟩
      · rintro ⟨acc', cs'', h, -, hc⟩
        cases h
        exact hc

theorem readRest_false_ne_none (n k : Nat) (acc : List UInt8) (cs : List (List UInt8)) :
    readRest false n k acc cs ≠ none := by
  induction k generalizing acc cs with
  | zero => simp [readRest]
  | succ k ih =>
    unfold readRest
    by_cases hn : acc.length < n
    · rw [if_pos hn, if_neg Bool.false_ne_true]
      cases hr : recv (recvBuffSize - acc.length) cs with
      | mk b cs' =>
        cases b with
        | nil => simp
        | cons b bs => exact ih (acc ++ b :: bs) cs'
    · simp [hn]

theorem readRest_consumes {n k : Nat} {acc : List UInt8} {cs rest : List (List UInt8)}
    {o : Option (List UInt8)} (h : readRest bEnabled n k acc cs = some (o, rest)) :
    (∃ t, t ++ rest.flatten = cs.flatten) ∧ pending rest ≤ pending cs := by
  induction k generalizing acc cs with
  | zero =>
    cases h
    exact ⟨⟨[], rfl⟩, Nat.le_refl _⟩
  | succ k ih =>
    unfold readRest at h
    by_cases hn : acc.length < n
    · rw [if_pos hn] at h
      by_cases hs : bEnabled = true
      · simp [hs] at h
      · rw [if_neg hs] at h
        have hle := pending_recv_le (recvBuffSize - acc.length) cs
        cases hr : recv (recvBuffSize - acc.length) cs with
        | mk b cs' =>
          rw [hr] at hle h
          have hb := recv_eq_flatten hr
          cases b with
          | nil =>
            cases h
            exact ⟨⟨[], hb⟩, hle⟩
          | cons b bs =>
            obtain ⟨⟨t, ht⟩, hp⟩ := ih h
            exact ⟨⟨b :: bs ++ t, by rw [List.append_assoc, ht, hb]⟩, Nat.le_trans hp hle⟩
    · rw [if_neg hn] at h
      cases h
      exact ⟨⟨[], rfl⟩, Nat.le_refl _⟩

/-- A pass finds the stream used up, finds nothing there, stops on TLS with bytes in hand, or takes
bytes; the bytes it takes are the packet when it calls a handler. -/
theorem receivePass_cases (bEnabled : Bool) (cs : List (List UInt8)) :
    (cs = [] ∧ receivePass bEnabled cs = some (none, [])) ∨
      (∃ cs', cs = [] :: cs' ∧ receivePass bEnabled cs = some (none, cs')) ∨
      (bEnabled = true ∧ receivePass bEnabled cs = none ∧ cs.flatten ≠ []) ∨
      ∃ t rest d, receivePass bEnabled cs = some (d, rest) ∧ t ≠ [] ∧
        t ++ rest.flatten = cs.flatten ∧ pending rest < pending cs ∧
        (d = none ∨ d = some (msgType t, t) ∧ msgType t < 15 ∧
          recvPacket bEnabled cs = some (some t, rest)) := by
  by_cases hnil : cs = []
  · subst hnil
    exact .inl ⟨rfl, rfl⟩
  right
  have hlt := pending_recv_lt (n := recvBuffSize) (by decide) hnil
  cases hr : recv recvBuffSize cs with
  | mk acc cs' =>
    rw [hr] at hlt
    have hb := recv_eq_flatten hr
    by_cases ha : acc = []
    · left
      subst ha
      cases cs with
      | nil => exact absurd rfl hnil
      | cons c cs =>
        have hc : c = [] ∧ cs = cs' := by
          by_cases h : c.length ≤ recvBuffSize
          · simpa [recv, h] using hr
          · rw [recv, if_neg h, Prod.mk.injEq] at hr
            have hlen := congrArg List.length hr.1
            rw [List.length_take, List.length_nil] at hlen
            unfold recvBuffSize at *
            omega
        obtain ⟨rfl, rfl⟩ := hc
        exact ⟨cs, rfl, rfl⟩
    · right
      by_cases h2 : acc.length < 2
      · exact .inr ⟨acc, cs', none, by simp [receivePass, recvPacket, hr, h2], ha, hb, hlt, .inl rfl⟩
      · have hpk : recvPacket bEnabled cs =
            readRest bEnabled (packetLen (fillBuff acc)) (recvBuffSize + 1) acc cs' := by
          simp [recvPacket, hr, h2]
        cases hrest : readRest bEnabled (packetLen (fillBuff acc)) (recvBuffSize + 1) acc cs' with
        | none =>
          rw [hrest] at hpk
          have hs : bEnabled = true := by
            cases bEnabled with
            | true => rfl
            | false => exact absurd hrest (readRest_false_ne_none _ _ _ _)
          exact .inl ⟨hs, by simp [receivePass, hpk], by simp [← hb, ha]⟩
        | some r =>
          obtain ⟨o, rest⟩ := r
          obtain ⟨⟨t, ht⟩, hp⟩ := readRest_consumes hrest
          rw [hrest] at hpk
          have hlt' : pending rest < pending cs := Nat.lt_of_le_of_lt hp hlt
          right
          cases o with
          | none =>
            refine ⟨acc ++ t, rest, none, by simp [receivePass, hpk], by simp [ha], ?_, hlt',
              .inl rfl⟩
            rw [List.append_assoc, ht, hb]
          | some p =>
            obtain ⟨acc', cs'', hr', -, hc⟩ := recvPacket_eq_some_iff.mp hpk
            rw [hr] at hr'
            cases hr'
            have hp0 : p ≠ [] := List.ne_nil_of_length_pos (by have hle := hc.length_le; omega)
            by_cases h15 : msgType p < 15
            · exact ⟨p, rest, some (msgType p, p), by simp [receivePass, hpk, h15], hp0,
                hc.flatten.trans hb, hlt', .inr ⟨rfl, h15, hpk⟩⟩
            · exact ⟨p, rest, none, by simp [receivePass, hpk, h15], hp0,
                hc.flatten.trans hb, hlt', .inl rfl⟩

end EdgeNode.Mqtt
