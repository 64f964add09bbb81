import EdgeNode.Mqtt.Receive

/-! Which segmentations of the broker's stream the receive loop turns back into its
packets. -/

namespace EdgeNode.Mqtt

open Segments

variable {bEnabled : Bool}

theorem receiveLoop_nil (k : Nat) : receiveLoop bEnabled k [] = ([], []) := by
  induction k with
  | zero => rfl
  | succ k ih =>
    rw [receiveLoop, show receivePass bEnabled [] = some (none, []) from rfl]
    simp [ih]

theorem receiveLoop_succ {k : Nat} {cs rest : List (List UInt8)} {d : Option (Nat × List UInt8)}
    (h : receivePass bEnabled cs = some (d, rest)) :
    receiveLoop bEnabled (k + 1) cs =
      (d.toList ++ (receiveLoop bEnabled k rest).1, (receiveLoop bEnabled k rest).2) := by
  simp [receiveLoop, h]

theorem receiveLoop_stop {k : Nat} {cs : List (List UInt8)} (h : receivePass bEnabled cs = none) :
    receiveLoop bEnabled (k + 1) cs = ([], cs) := by
  simp [receiveLoop, h]

/-- Without TLS the loop takes the whole stream. -/
theorem receiveLoop_rest {k : Nat} {cs : List (List UInt8)} (hk : pending cs ≤ k) :
    (receiveLoop false k cs).2 = [] := by
  induction k generalizing cs with
  | zero =>
    cases cs with
    | nil => rfl
    | cons c cs => simp [pending] at hk
  | succ k ih =>
    rcases receivePass_cases false cs with
      ⟨rfl, -⟩ | ⟨cs', rfl, h⟩ | ⟨hs, -⟩ | ⟨t, rest, d, h, -, -, hlt, -⟩
    · rw [receiveLoop_nil]
    · rw [receiveLoop_succ h]
      exact ih (by simp [pending] at hk ⊢; omega)
    · exact absurd hs Bool.false_ne_true
    · rw [receiveLoop_succ h]
      exact ih (by omega)

theorem receiveLoop_bytes_le (k : Nat) (cs : List (List UInt8)) :
    ((receiveLoop bEnabled k cs).1.map Prod.snd).flatten.length ≤ cs.flatten.length := by
  induction k generalizing cs with
  | zero => simp [receiveLoop]
  | succ k ih =>
    rcases receivePass_cases bEnabled cs with
      ⟨rfl, -⟩ | ⟨cs', rfl, h⟩ | ⟨-, h, -⟩ | ⟨t, rest, d, h, -, hb, -, hd⟩
    · simp [receiveLoop_nil]
    · simpa [receiveLoop_succ h] using ih cs'
    · simp [receiveLoop_stop h]
    · have hle := ih rest
      rw [receiveLoop_succ h, ← hb]
      rcases hd with rfl | ⟨rfl, -, -⟩
      · simp only [Option.toList_none, List.nil_append, List.length_append]
        omega
      · simp only [Option.toList_some, List.singleton_append, List.map_cons, List.flatten_cons,
          List.length_append]
        omega

theorem receiveLoop_of_aligned {cs ps : List (List UInt8)} (h : Aligned bEnabled cs ps)
    (hp : ∀ p ∈ ps, msgType p < 15) {k : Nat} (hk : pending cs ≤ k) :
    (receiveLoop bEnabled k cs).1 = ps.map fun p => (msgType p, p) := by
  induction h generalizing k with
  | nil => rw [receiveLoop_nil]; rfl
  | @idle cs ps h ih =>
    cases k with
    | zero => simp [pending] at hk
    | succ k =>
      rw [receiveLoop_succ (show receivePass bEnabled ([] :: cs) = some (none, cs) from rfl)]
      exact ih hp (by simp [pending] at hk ⊢; omega)
  | @packet cs acc cs' p rest ps hr h2 hc h ih =>
    have hpk : recvPacket bEnabled cs = some (some p, rest) :=
      recvPacket_eq_some_iff.mpr ⟨acc, cs', hr, h2, hc⟩
    have hne : cs ≠ [] := by
      rintro rfl
      simp only [recv, Prod.mk.injEq] at hr
      rw [← hr.1] at h2
      simp at h2
    have hlt : pending cs' < pending cs := by
      simpa only [hr] using pending_recv_lt (n := recvBuffSize) (by decide) hne
    have hle := hc.pending_le
    cases k with
    | zero => omega
    | succ k =>
      have hpass : receivePass bEnabled cs = some (some (msgType p, p), rest) := by
        simp [receivePass, hpk, hp p (by simp)]
      rw [receiveLoop_succ hpass, ih (fun q hq => hp q (by simp [hq])) (by omega)]
      rfl

theorem aligned_of_receiveLoop {k : Nat} {cs : List (List UInt8)} (hk : pending cs ≤ k)
    (h : ((receiveLoop bEnabled k cs).1.map Prod.snd).flatten.length = cs.flatten.length) :
    Aligned bEnabled cs ((receiveLoop bEnabled k cs).1.map Prod.snd) := by
  induction k generalizing cs with
  | zero =>
    cases cs with
    | nil => exact .nil
    | cons c cs => simp [pending] at hk
  | succ k ih =>
    rcases receivePass_cases bEnabled cs with
      ⟨rfl, -⟩ | ⟨cs', rfl, hp⟩ | ⟨-, hp, hne⟩ | ⟨t, rest, d, hp, ht, hb, hlt, hd⟩
    · rw [receiveLoop_nil]
      exact .nil
    · rw [receiveLoop_succ hp] at h ⊢
      exact .idle (ih (by simp [pending] at hk ⊢; omega) (by simpa using h))
    · have hpos := List.length_pos_iff.mpr hne
      rw [receiveLoop_stop hp] at h
      simp only [List.map_nil, List.flatten_nil, List.length_nil] at h
      omega
    · have hle := @receiveLoop_bytes_le bEnabled k rest
      have ht' := List.length_pos_iff.mpr ht
      rw [receiveLoop_succ hp] at h ⊢
      rcases hd with rfl | ⟨rfl, -, hpk⟩
      · -- The bytes of a pass without a delivery are missing from the sum.
        simp only [Option.toList_none, List.nil_append, ← hb, List.length_append] at h
        omega
      · simp only [Option.toList_some, List.singleton_append, List.map_cons, List.flatten_cons,
          ← hb, List.length_append, Nat.add_left_cancel_iff] at h
        obtain ⟨acc, cs', hr, h2, hc⟩ := recvPacket_eq_some_iff.mp hpk
        exact .packet hr h2 hc (ih (by omega) h)

/-- Each packet reaches the handler of its type once, whole and in order, exactly when the receives
are aligned with the packets. -/
theorem deliveries_eq_iff (bEnabled : Bool) (ps : List Packet) (cs : List (List UInt8))
    (h : cs.flatten = (ps.map Packet.bytes).flatten) :
    deliveries bEnabled cs = ps.map (fun p => (msgType p.bytes, p.bytes)) ↔
      Aligned bEnabled cs (ps.map Packet.bytes) := by
  constructor
  · intro hd
    have hs : (deliveries bEnabled cs).map Prod.snd = ps.map Packet.bytes := by
      rw [hd, List.map_map]
      rfl
    rw [← hs]
    exact aligned_of_receiveLoop (Nat.le_refl _) (by
      rw [h, ← hs]
      rfl)
  · intro ha
    have hp : ∀ p ∈ ps.map Packet.bytes, msgType p < 15 := by
      simpa using fun p _ => Packet.msgType_bytes p
    rw [deliveries, receiveLoop_of_aligned ha hp (Nat.le_refl _), List.map_map]
    rfl

theorem Packet.packetLen_bytes (p : Packet) (h : p.bytes.length ≤ recvBuffSize) :
    packetLen (fillBuff p.bytes) = p.bytes.length := by
  have hlt : p.body.length < 128 * 128 := by
    simp only [Packet.bytes, List.cons_append, List.length_cons, List.length_append,
      recvBuffSize] at h
    omega
  by_cases hn : p.body.length < 128
  · have he : encodeRemLen p.body.length = [UInt8.ofNat p.body.length] := if_pos hn
    simp only [packetLen, parseRemLen, Packet.bytes, he, fillBuff, List.cons_append, List.tail_cons,
      List.nil_append, parseRemLenFrom_one hn, numRemLenBytes_one hn, UInt16.toNat_ofNat',
      List.length_cons]
    omega
  · have he : encodeRemLen p.body.length =
        [UInt8.ofNat (p.body.length % 128 + 128), UInt8.ofNat (p.body.length / 128)] := by
      rw [encodeRemLen, if_neg hn, if_pos (by omega)]
    simp only [packetLen, parseRemLen, Packet.bytes, he, fillBuff, List.cons_append, List.tail_cons,
      List.nil_append, parseRemLenFrom_two hlt, numRemLenBytes_two hlt, UInt16.toNat_ofNat',
      List.length_cons]
    omega

theorem aligned_bytes (ps : List Packet) (h : ∀ p ∈ ps, p.bytes.length ≤ recvBuffSize) :
    Aligned bEnabled (ps.map Packet.bytes) (ps.map Packet.bytes) := by
  induction ps with
  | nil => exact .nil
  | cons p ps ih =>
    have hp := h p (by simp)
    exact .packet (recv_of_le hp _) p.two_le_length (.done (Nat.le_of_eq (p.packetLen_bytes hp)))
      (ih fun q hq => h q (by simp [hq]))

def pubAck : Packet := ⟨0x40, [0, 1], by decide, by decide, by decide⟩

def pingResp : Packet := ⟨0xD0, [], by decide, by decide, by decide⟩

theorem aligned_split : Aligned false [[0x40, 2], [0, 1], pingResp.bytes]
    ([pubAck, pingResp].map Packet.bytes) :=
  .packet (show _ = ([0x40, 2], [[0, 1], pingResp.bytes]) from rfl) (by decide)
    (.more rfl (by decide) rfl (by decide) (.done (by decide)))
    (aligned_bytes [pingResp] (by decide))

theorem deliveries_split :
    deliveries false [[0x40, 2], [0, 1], pingResp.bytes] =
      [pubAck, pingResp].map fun p => (msgType p.bytes, p.bytes) :=
  (deliveries_eq_iff false [pubAck, pingResp] [[0x40, 2], [0, 1], pingResp.bytes] rfl).mpr
    aligned_split

/-- Two packets in one receive reach the handler of the first as one; with TLS one packet in two
records reaches none. -/
theorem deliveries_coalesced :
    ([pubAck.bytes ++ pingResp.bytes].flatten = ([pubAck, pingResp].map Packet.bytes).flatten ∧
      ∀ bEnabled, deliveries bEnabled [pubAck.bytes ++ pingResp.bytes] ≠
        [pubAck, pingResp].map fun p => (msgType p.bytes, p.bytes)) ∧
    [[0x40, 2], [0, 1]].flatten = ([pubAck].map Packet.bytes).flatten ∧
      deliveries true [[0x40, 2], [0, 1]] ≠ [pubAck].map fun p => (msgType p.bytes, p.bytes) := by
  decide

end EdgeNode.Mqtt
