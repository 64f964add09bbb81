import Mathlib.Data.List.Basic
import Mathlib.Tactic.Common

/-! MQTT control packets and the fixed-header functions of `libemqtt`. -/

namespace EdgeNode.Mqtt

/-- The loop of `mqtt_parse_rem_len` over the bytes behind the flags byte. Both accumulators are
16 bits wide. The byte behind the receive buffer is zero, as are the bytes not yet received. -/
def parseRemLenFrom (value multiplier : UInt16) : List UInt8 → UInt16
  | [] => value
  | digit :: buf =>
    let value := value + (digit &&& 127).toUInt16 * multiplier
    if digit &&& 128 ≠ 0 then parseRemLenFrom value (multiplier * 128) buf else value

def parseRemLen (buf : List UInt8) : UInt16 := parseRemLenFrom 0 1 buf.tail

/-- `mqtt_num_rem_len_bytes`. -/
def numRemLenBytes (buf : List UInt8) : Nat :=
  if buf.getD 1 0 &&& 0x80 ≠ 0x80 then 1
  else if buf.getD 2 0 &&& 0x80 ≠ 0x80 then 2
  else if buf.getD 3 0 &&& 0x80 ≠ 0x80 then 3
  else 4

/-- `nPacketLen` of `FTE_MQTT_recvPacket`. -/
def packetLen (buf : List UInt8) : Nat := (parseRemLen buf).toNat + numRemLenBytes buf + 1

/-- `MQTTParseMessageType(buffer) >> 4`. -/
def msgType (buf : List UInt8) : Nat := (buf.getD 0 0).toNat / 16

def encodeRemLen (n : Nat) : List UInt8 :=
  if n < 128 then [UInt8.ofNat n]
  else if n < 128 * 128 then [UInt8.ofNat (n % 128 + 128), UInt8.ofNat (n / 128)]
  else if n < 128 * 128 * 128 then
    [UInt8.ofNat (n % 128 + 128), UInt8.ofNat (n / 128 % 128 + 128), UInt8.ofNat (n / 128 / 128)]
  else
    [UInt8.ofNat (n % 128 + 128), UInt8.ofNat (n / 128 % 128 + 128),
      UInt8.ofNat (n / 128 / 128 % 128 + 128), UInt8.ofNat (n / 128 / 128 / 128)]

theorem lastDigit {m : Nat} (hm : m < 128) : UInt8.ofNat m &&& 128 = 0 ∧
    (UInt8.ofNat m &&& 127).toUInt16 = UInt16.ofNat m := by
  have hd : ∀ m < 128, UInt8.ofNat m &&& 128 = 0 ∧
      (UInt8.ofNat m &&& 127).toUInt16 = UInt16.ofNat m := by decide +kernel
  exact hd m hm

theorem nextDigit {m : Nat} (hm : m < 128) : UInt8.ofNat (m + 128) &&& 128 = 128 ∧
    (UInt8.ofNat (m + 128) &&& 127).toUInt16 = UInt16.ofNat m := by
  have hd : ∀ m < 128, UInt8.ofNat (m + 128) &&& 128 = 128 ∧
      (UInt8.ofNat (m + 128) &&& 127).toUInt16 = UInt16.ofNat m := by decide +kernel
  exact hd m hm

theorem parseRemLenFrom_one {n : Nat} (hn : n < 128) (bs : List UInt8) :
    parseRemLenFrom 0 1 (UInt8.ofNat n :: bs) = UInt16.ofNat n := by
  obtain ⟨h1, h2⟩ := lastDigit hn
  simp [parseRemLenFrom, h1, h2]

theorem numRemLenBytes_one {n : Nat} (hn : n < 128) (f : UInt8) (bs : List UInt8) :
    numRemLenBytes (f :: UInt8.ofNat n :: bs) = 1 := by
  simp [numRemLenBytes, (lastDigit hn).1]

theorem parseRemLenFrom_two {n : Nat} (hn : n < 128 * 128) (bs : List UInt8) :
    parseRemLenFrom 0 1 (UInt8.ofNat (n % 128 + 128) :: UInt8.ofNat (n / 128) :: bs) =
      UInt16.ofNat n := by
  obtain ⟨h1, h2⟩ := nextDigit (Nat.mod_lt n (by decide : 0 < 128))
  obtain ⟨h3, h4⟩ := lastDigit (show n / 128 < 128 by omega)
  rw [parseRemLenFrom, if_pos (by rw [h1]; decide), parseRemLenFrom, h2, h4]
  simp only [h3, ne_eq, not_true_eq_false, if_false]
  apply UInt16.toNat_inj.mp
  rw [UInt16.zero_add, UInt16.mul_one, UInt16.one_mul]
  simp only [UInt16.toNat_add, UInt16.toNat_mul, UInt16.toNat_ofNat', UInt16.toNat_ofNat,
    Nat.reducePow, Nat.reduceMod]
  omega

theorem numRemLenBytes_two {n : Nat} (hn : n < 128 * 128) (f : UInt8) (bs : List UInt8) :
    numRemLenBytes (f :: UInt8.ofNat (n % 128 + 128) :: UInt8.ofNat (n / 128) :: bs) = 2 := by
  have h1 := (nextDigit (Nat.mod_lt n (by decide : 0 < 128))).1
  have h3 := (lastDigit (show n / 128 < 128 by omega)).1
  refine (if_neg (fun h => h h1)).trans (if_pos fun h => ?_)
  have h' : UInt8.ofNat (n / 128) &&& 128 = 128 := h
  rw [h3] at h'
  exact absurd h' (by decide)

/-- A control packet of one of the fourteen types. -/
structure Packet where
  flags : UInt8
  body : List UInt8
  type_pos : 16 ≤ flags.toNat
  type_lt : flags.toNat < 240
  body_lt : body.length < 128 * 128 * 128 * 128

def Packet.bytes (p : Packet) : List UInt8 := p.flags :: encodeRemLen p.body.length ++ p.body

theorem Packet.msgType_bytes (p : Packet) : msgType p.bytes < 15 := by
  have h := p.type_lt
  simp only [msgType, Packet.bytes, List.cons_append, List.getD_cons_zero]
  omega

theorem Packet.two_le_length (p : Packet) : 2 ≤ p.bytes.length := by
  have h : 1 ≤ (encodeRemLen p.body.length).length := by
    unfold encodeRemLen
    split_ifs <;> simp
  simp only [Packet.bytes, List.cons_append, List.length_cons, List.length_append]
  omega

end EdgeNode.Mqtt
