import EdgeNode.Lib.CString
import EdgeNode.Mqtt.Framing
import EdgeNode.Mqtt.Topic
import EdgeNode.Types

/-! The control packets that `libemqtt` sends, and what its own functions read in them. -/

namespace EdgeNode.Mqtt.Wire

open CString

/-- The parts of a packet, one behind another in zeroed memory of `n` bytes; without a value where they
do not fit. -/
def fill (n : UInt16) (parts : List UInt8) : Option (List UInt8) :=
  if parts.length ≤ n.toNat then some (parts ++ List.replicate (n.toNat - parts.length) 0) else none

/-- A string behind its length of 16 bits. -/
def field (s : List UInt8) : List UInt8 :=
  htons (UInt16.ofNat s.length) ++ s.take (UInt16.ofNat s.length).toNat

/-- The fixed header, with a remaining length of one byte or of two. -/
def fixedHeader (type : UInt8) (remainLen : UInt16) : List UInt8 :=
  if remainLen ≤ 127 then [type, remainLen.toUInt8]
  else [type, (remainLen % 128).toUInt8 ||| 0x80, (remainLen / 128).toUInt8]

section Connect

def clientidSize : Nat := 50

/-- `MQTT_CONF_USERNAME_LENGTH` and `MQTT_CONF_PASSWORD_LENGTH`. -/
def authSize : Nat := 13

/-- `mqtt_broker_handle_t`; the strings stand one behind another in it. -/
structure Handle where
  clientid : List UInt8
  username : List UInt8
  password : List UInt8
  clean_session : Bool
  seq : UInt16
  alive : UInt16

def strncpy (n : Nat) (s : List UInt8) : List UInt8 := s.take n ++ List.replicate (n - s.length) 0

/-- `mqtt_init` -/
def init (clientid : Option Text) : Handle where
  clientid := strncpy clientidSize (match clientid with
    | some s => s.val
    | none => [101, 109, 113, 116, 116])
  username := List.replicate authSize 0
  password := List.replicate authSize 0
  clean_session := true
  seq := 1
  alive := 300

/-- `mqtt_init_auth` -/
def initAuth (h : Handle) (username password : Text) : Handle :=
  { h with
    username := if username.val ≠ [] then
      strncpy (authSize - 1) username.val ++ h.username.drop (authSize - 1) else h.username
    password := if password.val ≠ [] then
      strncpy (authSize - 1) password.val ++ h.password.drop (authSize - 1) else h.password }

/-- `mqtt_set_alive` -/
def setAlive (h : Handle) (alive : UInt16) : Handle := { h with alive }

/-- The strings in memory. `strlen` of one without a terminator goes on in the next. -/
def Handle.strings (h : Handle) : List UInt8 := h.clientid ++ (h.username ++ h.password)

def Handle.clientidText (h : Handle) : List UInt8 := textAt h.strings 0

def Handle.usernameText (h : Handle) : List UInt8 := textAt h.strings clientidSize

def Handle.passwordText (h : Handle) : List UInt8 := textAt h.strings (clientidSize + authSize)

/-- The field of a string that there may be. -/
def optionalField (s : List UInt8) : List UInt8 := if s ≠ [] then field s else []

def connectFlags (h : Handle) : UInt8 :=
  (if h.usernameText ≠ [] then 0x80 else 0) ||| (if h.passwordText ≠ [] then 0x40 else 0) |||
    (if h.clean_session then 0x02 else 0)

/-- The protocol name `MQIsdp`, its version, the flags and the interval. -/
def connectHeader (h : Handle) : List UInt8 :=
  [0x00, 0x06, 0x4d, 0x51, 0x49, 0x73, 0x64, 0x70, 0x03, connectFlags h] ++ htons h.alive

def payloadLen (h : Handle) : UInt16 :=
  let clientidlen := UInt16.ofNat h.clientidText.length
  let usernamelen := UInt16.ofNat h.usernameText.length
  let passwordlen := UInt16.ofNat h.passwordText.length
  let payload_len := clientidlen + 2
  let payload_len := if h.usernameText ≠ [] then payload_len + usernamelen + 2 else payload_len
  if h.passwordText ≠ [] then payload_len + passwordlen + 2 else payload_len

/-- The packet of `mqtt_connect`. The remaining length is kept in a byte. -/
def connect (h : Handle) : Option (List UInt8) :=
  let remainLen := (12 + payloadLen h).toUInt8
  let fixed_header := fixedHeader 0x10 remainLen.toUInt16
  let packetSize := UInt16.ofNat fixed_header.length + 12 + payloadLen h
  fill packetSize (fixed_header ++ connectHeader h ++ field h.clientidText ++
    optionalField h.usernameText ++ optionalField h.passwordText)

end Connect

section Messages

/-- The packet of `mqtt_publish_with_qos`, and the sequence number afterwards. -/
def publishWithQos (seq : UInt16) (topic msg : Text) (retain : Bool) (qos : UInt8) :
    Option (List UInt8 × UInt16) := do
  let topiclen := UInt16.ofNat topic.val.length
  let msglen := UInt16.ofNat msg.val.length
  let qos_size : UInt16 := if qos = 1 ∨ qos = 2 then 2 else 0
  let qos_flag : UInt8 := if qos = 1 then 0x02 else if qos = 2 then 0x04 else 0
  let var_header_len := topiclen + 2 + qos_size
  let var_header ← fill var_header_len (field topic.val ++ if qos_size ≠ 0 then htons seq else [])
  let remainLen := var_header_len + msglen
  let fixed_header := fixedHeader (0x30 ||| qos_flag ||| if retain then 1 else 0) remainLen
  let packetLen := UInt16.ofNat fixed_header.length + var_header_len + msglen
  let packet ← fill packetLen (fixed_header ++ var_header ++ msg.val.take msglen.toNat)
  some (packet, if qos_size ≠ 0 then seq + 1 else seq)

/-- The packets of `mqtt_subscribe` and of `mqtt_unsubscribe`: the topic with `extra` bytes behind it,
and a remaining length of one byte. -/
def topicPacket (type : UInt8) (extra seq : UInt16) (topic : Text) : Option (List UInt8) := do
  let utf_topic_len := UInt16.ofNat topic.val.length + 2 + extra
  let utf_topic ← fill utf_topic_len (field topic.val)
  fill (2 + 2 + utf_topic_len) ([type, (2 + utf_topic_len).toUInt8] ++ htons seq ++ utf_topic)

def subscribe (seq : UInt16) (topic : Text) : Option (List UInt8) := topicPacket 0x82 1 seq topic

def unsubscribe (seq : UInt16) (topic : Text) : Option (List UInt8) := topicPacket 0xA2 0 seq topic

def pubrel (message_id : UInt16) : List UInt8 := [0x62, 0x02] ++ htons message_id

def ping : List UInt8 := [0xC0, 0x00]

def disconnect : List UInt8 := [0xE0, 0x00]

end Messages

/-- `mqtt_parse_msg_id`; in a message that is published its offset is a byte. -/
def parseMsgId (buf : List UInt8) : UInt16 :=
  let rlb := numRemLenBytes buf
  if 3 ≤ msgType buf ∧ msgType buf ≤ 11 then
    if msgType buf = Topic.msgPublish then
      if (buf.getD 0 0 &&& 0x06) >>> 1 ≠ 0 then
        let offset := buf.getD (1 + rlb + 1) 0 + UInt8.ofNat (1 + rlb + 2)
        ntohs (buf.getD offset.toNat 0) (buf.getD (offset.toNat + 1) 0)
      else 0
    else ntohs (buf.getD (1 + rlb) 0) (buf.getD (1 + rlb + 1) 0)
  else 0


section Fixed

theorem fill_eq {n : UInt16} {parts p : List UInt8} (h : fill n parts = some p) :
    parts.length ≤ n.toNat ∧ p = parts ++ List.replicate (n.toNat - parts.length) 0 := by
  rw [fill] at h
  split_ifs at h with hle
  exact ⟨hle, (Option.some.inj h).symm⟩

theorem length_fill {n : UInt16} {parts p : List UInt8} (h : fill n parts = some p) :
    p.length = n.toNat := by
  obtain ⟨hle, rfl⟩ := fill_eq h
  rw [List.length_append, List.length_replicate]
  omega

theorem and_128_lt {d : UInt8} (h : d.toNat < 128) :
    d &&& 128 = 0 ∧ (d &&& 127).toUInt16 = d.toUInt16 := by
  have hd := lastDigit h
  rw [UInt8.ofNat_toNat] at hd
  exact ⟨hd.1, hd.2.trans (UInt16.toNat_inj.mp (by simp))⟩

theorem and_128_ge {d : UInt8} (h : 128 ≤ d.toNat) :
    d &&& 128 = 128 ∧ (d &&& 127).toUInt16 = UInt16.ofNat (d.toNat - 128) := by
  have hlt := d.toNat_lt
  have hd := nextDigit (m := d.toNat - 128) (by omega)
  rw [show d.toNat - 128 + 128 = d.toNat by omega, UInt8.ofNat_toNat] at hd
  exact hd

/-- What the digits behind the first are worth is a multiple of 128. -/
theorem parseRemLenFrom_mod {multiplier : UInt16} (hm : multiplier.toNat % 128 = 0) (value : UInt16)
    (bs : List UInt8) : (parseRemLenFrom value multiplier bs).toNat % 128 = value.toNat % 128 := by
  induction bs generalizing value multiplier with
  | nil => rfl
  | cons d bs ih =>
    have hvalue : (value + (d &&& 127).toUInt16 * multiplier).toNat % 128 = value.toNat % 128 := by
      have hmul : (d &&& 127).toUInt16.toNat * multiplier.toNat % 128 = 0 := by
        rw [Nat.mul_mod, hm, Nat.mul_zero, Nat.zero_mod]
      rw [UInt16.toNat_add, UInt16.toNat_mul]
      omega
    have hnext : (multiplier * 128).toNat % 128 = 0 := by
      have h128 : (128 : UInt16).toNat = 128 := rfl
      rw [UInt16.toNat_mul, h128]
      omega
    rw [parseRemLenFrom]
    split_ifs
    · rw [ih hnext, hvalue]
    · exact hvalue

theorem parseRemLen_mod (type d : UInt8) (bs : List UInt8) :
    (parseRemLen (type :: d :: bs)).toNat % 128 = d.toNat % 128 := by
  have hlt := d.toNat_lt
  have hdigit : (0 + (d &&& 127).toUInt16 * 1).toNat % 128 = d.toNat % 128 := by
    rw [UInt16.mul_one, UInt16.zero_add]
    by_cases h : d.toNat < 128
    · rw [(and_128_lt h).2, UInt8.toNat_toUInt16]
    · rw [(and_128_ge (Nat.le_of_not_lt h)).2, UInt16.toNat_ofNat']
      omega
  rw [parseRemLen, List.tail_cons, parseRemLenFrom]
  split_ifs
  · rw [UInt16.one_mul, parseRemLenFrom_mod (by decide), hdigit]
  · exact hdigit

theorem numRemLenBytes_le (buf : List UInt8) : 1 ≤ numRemLenBytes buf ∧ numRemLenBytes buf ≤ 4 := by
  unfold numRemLenBytes
  split_ifs <;> omega

/-- A packet whose remaining length is in one byte frames itself up to 127. -/
theorem packetLen_byte (type : UInt8) {n : Nat} (hn : n < 65536) {body : List UInt8}
    (hbody : body.length = n) :
    packetLen (type :: UInt8.ofNat n :: body) = (type :: UInt8.ofNat n :: body).length ↔ n < 128 := by
  rw [packetLen, List.length_cons, List.length_cons, hbody]
  by_cases hlow : n % 256 < 128
  · have hd : UInt8.ofNat n = UInt8.ofNat (n % 256) := UInt8.toNat_inj.mp (by simp)
    rw [hd, numRemLenBytes_one hlow, parseRemLen, List.tail_cons, parseRemLenFrom_one hlow,
      UInt16.toNat_ofNat']
    omega
  · have hmod := parseRemLen_mod type (UInt8.ofNat n) body
    have hd : (UInt8.ofNat n).toNat = n % 256 := UInt8.toNat_ofNat'
    have hmore : numRemLenBytes (type :: UInt8.ofNat n :: body) ≠ 1 := by
      have hbit := (and_128_ge (d := UInt8.ofNat n) (by omega)).1
      unfold numRemLenBytes
      rw [if_neg (by simpa using hbit)]
      split_ifs <;> omega
    obtain ⟨hlo, hhi⟩ := numRemLenBytes_le (type :: UInt8.ofNat n :: body)
    omega

/-- With `fixedHeader` it does so up to 16383. -/
theorem packetLen_fixedHeader (type : UInt8) (n : UInt16) {body : List UInt8}
    (hbody : body.length = n.toNat) :
    packetLen (fixedHeader type n ++ body) = (fixedHeader type n ++ body).length ↔ n.toNat < 16384 := by
  have h127 : (127 : UInt16).toNat = 127 := rfl
  have hn := n.toNat_lt
  rw [fixedHeader]
  by_cases hone : n ≤ 127
  · have hlow : n.toNat < 128 := by
      rw [UInt16.le_iff_toNat_le, h127] at hone
      omega
    have hd : n.toUInt8 = UInt8.ofNat n.toNat := rfl
    rw [if_pos hone, hd]
    have hbyte := packetLen_byte type hn hbody
    simp only [List.cons_append, List.nil_append]
    rw [hbyte]
    omega
  · have hhigh : 128 ≤ n.toNat := by
      rw [UInt16.le_iff_toNat_le, h127] at hone
      omega
    have hmark : ∀ m < 128, UInt8.ofNat m ||| 0x80 = UInt8.ofNat (m + 128) := by decide +kernel
    have h128 : (128 : UInt16).toNat = 128 := rfl
    have hfirst : (n % 128).toUInt8 ||| 0x80 = UInt8.ofNat (n.toNat % 128 + 128) := by
      rw [← hmark _ (Nat.mod_lt _ (by decide)), ← h128, ← UInt16.toNat_mod]
      rfl
    have hsecond : (n / 128).toUInt8 = UInt8.ofNat (n.toNat / 128 % 256) := by
      rw [← h128, ← UInt16.toNat_div]
      exact UInt8.toNat_inj.mp (by simp)
    have hdiv : n.toNat / 128 < 512 := by omega
    rw [if_neg hone, hfirst, hsecond]
    simp only [List.cons_append, List.nil_append, packetLen, List.length_cons, hbody]
    by_cases hlow : n.toNat / 128 % 256 < 128
    · -- the length that the two digits stand for
      obtain ⟨k, hk⟩ : ∃ k, k = n.toNat % 128 + 128 * (n.toNat / 128 % 256) := ⟨_, rfl⟩
      have hk' : k < 128 * 128 := by omega
      rw [show n.toNat % 128 = k % 128 by omega, show n.toNat / 128 % 256 = k / 128 by omega,
        numRemLenBytes_two hk', parseRemLen, List.tail_cons, parseRemLenFrom_two hk',
        UInt16.toNat_ofNat']
      omega
    · have hmod := parseRemLen_mod type (UInt8.ofNat (n.toNat % 128 + 128))
        (UInt8.ofNat (n.toNat / 128 % 256) :: body)
      have hd : (UInt8.ofNat (n.toNat % 128 + 128)).toNat = n.toNat % 128 + 128 := by
        rw [UInt8.toNat_ofNat']
        omega
      have hmore : 3 ≤ numRemLenBytes (type :: UInt8.ofNat (n.toNat % 128 + 128) ::
          UInt8.ofNat (n.toNat / 128 % 256) :: body) := by
        have hbit := (nextDigit (m := n.toNat % 128) (Nat.mod_lt _ (by decide))).1
        have hbit' := (and_128_ge (d := UInt8.ofNat (n.toNat / 128 % 256)) (by
          rw [UInt8.toNat_ofNat']
          omega)).1
        unfold numRemLenBytes
        rw [if_neg (by simpa using hbit), if_neg (by simpa using hbit')]
        split_ifs <;> omega
      have hfour := (numRemLenBytes_le (type :: UInt8.ofNat (n.toNat % 128 + 128) ::
          UInt8.ofNat (n.toNat / 128 % 256) :: body)).2
      omega

end Fixed

section Packets

/-- What `strlen` in 16 bits leaves of a string. -/
def short (s : List UInt8) : List UInt8 := s.take (s.length % 65536)

theorem short_eq {s : List UInt8} (h : s.length < 65536) : short s = s := by
  rw [short, Nat.mod_eq_of_lt h, List.take_length]

theorem length_short (s : List UInt8) : (short s).length = s.length % 65536 := by
  rw [short, List.length_take]
  exact Nat.min_eq_left (Nat.mod_le _ _)

theorem take_short (s : List UInt8) : s.take (UInt16.ofNat s.length).toNat = short s := by
  rw [UInt16.toNat_ofNat']
  rfl

theorem field_eq (s : List UInt8) : field s = htons (UInt16.ofNat s.length) ++ short s := by
  rw [field, take_short]

theorem length_field (s : List UInt8) : (field s).length = 2 + s.length % 65536 := by
  rw [field_eq, List.length_append, htons_length, length_short]

theorem length_fixedHeader (type : UInt8) (n : UInt16) :
    (fixedHeader type n).length = if n ≤ 127 then 2 else 3 := by
  rw [fixedHeader]
  split_ifs <;> rfl

/-- Parts whose sizes are added up without a carry fill their memory. -/
theorem fill_exact {n : UInt16} {parts p : List UInt8} (h : fill n parts = some p)
    (hn : n.toNat = parts.length % 65536) :
    p = parts ∧ n.toNat = parts.length ∧ parts.length < 65536 := by
  obtain ⟨hle, rfl⟩ := fill_eq h
  have hmod := Nat.mod_le parts.length 65536
  have heq : n.toNat = parts.length := by omega
  have hlt := n.toNat_lt
  rw [heq, Nat.sub_self, List.replicate_zero, List.append_nil]
  exact ⟨rfl, rfl, by omega⟩

/-- The identifier in a message, if there is one. -/
def identifier (seq : UInt16) (qos : UInt8) : List UInt8 := if qos = 1 ∨ qos = 2 then htons seq else []

def publishFlags (retain : Bool) (qos : UInt8) : UInt8 :=
  0x30 ||| (if qos = 1 then 0x02 else if qos = 2 then 0x04 else 0) ||| if retain then 1 else 0

variable {seq seq' : UInt16} {topic msg : Text} {retain : Bool} {qos : UInt8} {p : List UInt8}

theorem publishWithQos_eq (h : publishWithQos seq topic msg retain qos = some (p, seq')) :
    ∃ n : UInt16, p = fixedHeader (publishFlags retain qos) n ++
        (field topic.val ++ identifier seq qos ++ short msg.val) ∧
      n.toNat = (field topic.val ++ identifier seq qos ++ short msg.val).length := by
  obtain ⟨var_header, hvar, h⟩ := Option.bind_eq_some_iff.mp h
  obtain ⟨packet, hpacket, h⟩ := Option.bind_eq_some_iff.mp h
  obtain ⟨rfl, -⟩ := Prod.mk.inj (Option.some.inj h)
  have hid : (if (if qos = 1 ∨ qos = 2 then (2 : UInt16) else 0) ≠ 0 then htons seq else []) =
      identifier seq qos := by
    rw [identifier]
    split_ifs <;> first | rfl | contradiction
  have hsize : (if qos = 1 ∨ qos = 2 then (2 : UInt16) else 0).toNat = (identifier seq qos).length := by
    rw [identifier]
    split_ifs <;> rfl
  have htwo : (2 : UInt16).toNat = 2 := rfl
  rw [hid] at hvar
  obtain ⟨rfl, hn, -⟩ := fill_exact hvar (by
    rw [UInt16.toNat_add, UInt16.toNat_add, hsize, htwo, UInt16.toNat_ofNat', List.length_append,
      length_field]
    omega)
  rw [take_short] at hpacket
  have hbody : (field topic.val ++ identifier seq qos).length + (short msg.val).length =
      (field topic.val ++ identifier seq qos ++ short msg.val).length := List.length_append.symm
  have hhead := length_fixedHeader (publishFlags retain qos) (UInt16.ofNat topic.val.length + 2 +
    (if qos = 1 ∨ qos = 2 then (2 : UInt16) else 0) + UInt16.ofNat msg.val.length)
  have hmsg : (UInt16.ofNat msg.val.length).toNat = (short msg.val).length := by
    rw [length_short, UInt16.toNat_ofNat']
  obtain ⟨rfl, -, hfit⟩ := fill_exact hpacket (by
    rw [UInt16.toNat_add, UInt16.toNat_add, UInt16.toNat_ofNat', hn, hmsg]
    simp only [List.length_append]
    omega)
  refine ⟨_, List.append_assoc _ _ _, ?_⟩
  rw [List.append_assoc, List.length_append] at hfit
  rw [UInt16.toNat_add, hn, hmsg, hbody, Nat.mod_eq_of_lt (by omega)]

/-- `mqtt_subscribe` and `mqtt_unsubscribe`. -/
theorem topicPacket_eq {type : UInt8} {extra : UInt16} (hextra : extra.toNat ≤ 1)
    (h : topicPacket type extra seq topic = some p) :
    p = type :: UInt8.ofNat (topic.val.length % 65536 + 4 + extra.toNat) ::
        (htons seq ++ (field topic.val ++ List.replicate extra.toNat 0)) ∧
      topic.val.length % 65536 + 4 + extra.toNat < 65536 := by
  obtain ⟨utf_topic, htopic, h⟩ := Option.bind_eq_some_iff.mp h
  have htwo : (2 : UInt16).toNat = 2 := rfl
  obtain ⟨hle, hutf⟩ := fill_eq htopic
  have hlt := (UInt16.ofNat topic.val.length + 2 + extra).toNat_lt
  have hn : (UInt16.ofNat topic.val.length + 2 + extra).toNat =
      topic.val.length % 65536 + 2 + extra.toNat := by
    rw [length_field] at hle
    rw [UInt16.toNat_add, UInt16.toNat_add, htwo, UInt16.toNat_ofNat'] at hle ⊢
    omega
  have hpad : utf_topic = field topic.val ++ List.replicate extra.toNat 0 := by
    rw [hutf, hn, length_field]
    congr 2
    omega
  have hlen : utf_topic.length = topic.val.length % 65536 + 2 + extra.toNat := by
    rw [length_fill htopic, hn]
  obtain ⟨rfl, -, hfit⟩ := fill_exact h (by
    rw [UInt16.toNat_add, UInt16.toNat_add, hn, htwo, List.length_append, List.length_append, hlen,
      htons_length, List.length_cons, List.length_singleton])
  rw [List.length_append, List.length_append, hlen, htons_length, List.length_cons,
    List.length_singleton] at hfit
  refine ⟨?_, by omega⟩
  have hbyte : (2 + (UInt16.ofNat topic.val.length + 2 + extra)).toUInt8 =
      UInt8.ofNat (topic.val.length % 65536 + 4 + extra.toNat) := by
    apply UInt8.toNat_inj.mp
    rw [UInt16.toNat_toUInt8, UInt16.toNat_add, hn, htwo, UInt8.toNat_ofNat']
    omega
  rw [hbyte, hpad]
  simp only [List.cons_append, List.nil_append]

end Packets

section Names

theorem takeWhile_text {s : List UInt8} (hs : 0 ∉ s) (rest : List UInt8) :
    (s ++ rest).takeWhile (· ≠ 0) = s ++ rest.takeWhile (· ≠ 0) :=
  List.takeWhile_append_of_pos fun _ hb => decide_eq_true (ne_of_mem_of_not_mem hb hs)

theorem takeWhile_strncpy {s : List UInt8} (hs : 0 ∉ s) (n : Nat) (rest : List UInt8) :
    (strncpy n s ++ rest).takeWhile (· ≠ 0) =
      if s.length < n then s else s.take n ++ rest.takeWhile (· ≠ 0) := by
  rw [strncpy]
  split_ifs with hlt
  · obtain ⟨k, hk⟩ : ∃ k, n - s.length = k + 1 := ⟨n - s.length - 1, by omega⟩
    rw [List.take_of_length_le (Nat.le_of_lt hlt), hk, List.append_assoc, takeWhile_text hs,
      List.replicate_succ, List.cons_append, List.takeWhile_cons_of_neg (by simp), List.append_nil]
  · have htake : 0 ∉ s.take n := fun h => hs (List.mem_of_mem_take h)
    rw [Nat.sub_eq_zero_of_le (Nat.le_of_not_lt hlt), List.replicate_zero, List.append_nil,
      takeWhile_text htake]

theorem length_strncpy (n : Nat) (s : List UInt8) : (strncpy n s).length = n := by
  rw [strncpy, List.length_append, List.length_take, List.length_replicate]
  omega

/-- The handle of a client: its identifier, the names of its authorization and its interval. -/
def client (clientid username password : Text) (alive : UInt16) : Handle :=
  setAlive (initAuth (init (some clientid)) username password) alive

variable (clientid username password : Text) (alive : UInt16)

theorem client_strings : (client clientid username password alive).strings =
    strncpy clientidSize clientid.val ++ ((strncpy (authSize - 1) username.val ++ [0]) ++
      (strncpy (authSize - 1) password.val ++ [0])) := by
  have hname : ∀ s : Text, (if s.val ≠ [] then strncpy (authSize - 1) s.val ++
      (List.replicate authSize (0 : UInt8)).drop (authSize - 1) else List.replicate authSize 0) =
      strncpy (authSize - 1) s.val ++ [0] := by
    intro s
    split_ifs with hs
    · rfl
    · rw [not_not] at hs
      rw [hs]
      rfl
  have hu := hname username
  have hp := hname password
  exact congrArg₂ (fun u p => strncpy clientidSize clientid.val ++ (u ++ p)) hu hp

/-- The names are cut to twelve characters. -/
theorem usernameText_client :
    (client clientid username password alive).usernameText = username.val.take 12 := by
  have hlen : (strncpy clientidSize clientid.val).length = clientidSize := length_strncpy _ _
  rw [Handle.usernameText, client_strings, textAt, List.drop_left' hlen, List.append_assoc,
    takeWhile_strncpy username.property]
  split_ifs with hlt
  · exact (List.take_of_length_le (Nat.le_of_lt hlt)).symm
  · rw [List.cons_append, List.takeWhile_cons_of_neg (by simp), List.append_nil]
    rfl

theorem passwordText_client :
    (client clientid username password alive).passwordText = password.val.take 12 := by
  have hlen : (strncpy clientidSize clientid.val ++
      (strncpy (authSize - 1) username.val ++ [0])).length = clientidSize + authSize := by
    rw [List.length_append, List.length_append, length_strncpy, length_strncpy]
    rfl
  rw [Handle.passwordText, client_strings, textAt, ← List.append_assoc, List.drop_left' hlen,
    takeWhile_strncpy password.property]
  split_ifs with hlt
  · exact (List.take_of_length_le (Nat.le_of_lt hlt)).symm
  · rw [List.takeWhile_cons_of_neg (by simp), List.append_nil]
    rfl

/-- An identifier of 50 characters or more is not terminated, and is read on into the user name. -/
theorem clientidText_client : (client clientid username password alive).clientidText =
    if clientid.val.length < 50 then clientid.val
    else clientid.val.take 50 ++ username.val.take 12 := by
  rw [Handle.clientidText, client_strings, textAt, List.drop_zero, takeWhile_strncpy clientid.property]
  have huser := usernameText_client clientid username password alive
  have hlen : (strncpy clientidSize clientid.val).length = clientidSize := length_strncpy _ _
  rw [Handle.usernameText, client_strings, textAt, List.drop_left' hlen] at huser
  rw [huser]
  rfl

end Names


section Broker

/-- A client as a broker sees it. -/
structure Connected where
  clientid : List UInt8
  username : List UInt8
  password : List UInt8
  alive : UInt16
  clean_session : Bool

/-- A string behind its length. -/
def takeField : List UInt8 → Option (List UInt8 × List UInt8)
  | hi :: lo :: rest =>
    let n := (ntohs hi lo).toNat
    if n ≤ rest.length then some (rest.take n, rest.drop n) else none
  | _ => none

/-- A string that a flag tells of. -/
def takeOptional (flags mask : UInt8) (t : List UInt8) : Option (List UInt8 × List UInt8) :=
  if flags &&& mask ≠ 0 then takeField t else some ([], t)

/-- What a broker makes of a packet to connect, by the layout of the protocol. -/
def readConnect (p : List UInt8) : Option Connected :=
  if p.headD 0 = 0x10 ∧ packetLen p = p.length then do
    let (name, t) ← takeField (p.drop (1 + numRemLenBytes p))
    match t with
    | version :: flags :: hi :: lo :: t =>
      if name = [0x4d, 0x51, 0x49, 0x73, 0x64, 0x70] ∧ version = 3 then
        let (clientid, t) ← takeField t
        let (username, t) ← takeOptional flags 0x80 t
        let (password, t) ← takeOptional flags 0x40 t
        if t = [] then some ⟨clientid, username, password, ntohs hi lo, flags &&& 2 ≠ 0⟩ else none
      else none
    | _ => none
  else none

theorem takeField_field (s rest : List UInt8) : takeField (field s ++ rest) = some (short s, rest) := by
  have hlen := length_short s
  have hn : (ntohs (UInt8.ofNat ((UInt16.ofNat s.length).toNat / 256))
      (UInt8.ofNat (UInt16.ofNat s.length).toNat)).toNat = (short s).length := by
    rw [ntohs_htons, UInt16.toNat_ofNat', hlen]
  rw [field_eq, htons, List.append_assoc, List.cons_append, List.cons_append, List.nil_append,
    takeField, hn, if_pos (by rw [List.length_append]; omega), List.take_left, List.drop_left]

theorem takeOptional_field {flags mask : UInt8} {s : List UInt8} (h : flags &&& mask ≠ 0 ↔ s ≠ [])
    (hs : s.length < 65536) (rest : List UInt8) :
    takeOptional flags mask (optionalField s ++ rest) = some (s, rest) := by
  rw [takeOptional, optionalField]
  by_cases hnil : s = []
  · rw [if_neg (mt h.mp (not_not.mpr hnil)), if_neg (not_not.mpr hnil), hnil]
    rfl
  · rw [if_pos (h.mpr hnil), if_pos hnil, takeField_field, short_eq hs]

theorem length_optionalField {s : List UInt8} (hs : s.length < 65536) :
    (optionalField s).length = if s ≠ [] then s.length + 2 else 0 := by
  rw [optionalField]
  split_ifs
  · rw [length_field, Nat.mod_eq_of_lt hs, Nat.add_comm]
  · rfl

theorem connectFlags_bits (h : Handle) :
    (connectFlags h &&& 0x80 ≠ 0 ↔ h.usernameText ≠ []) ∧
      (connectFlags h &&& 0x40 ≠ 0 ↔ h.passwordText ≠ []) ∧
        (connectFlags h &&& 2 ≠ 0 ↔ h.clean_session = true) := by
  rw [connectFlags]
  by_cases hu : h.usernameText = [] <;> by_cases hp : h.passwordText = [] <;>
    cases h.clean_session <;> simp [hu, hp] <;> decide

theorem payloadLen_eq {h : Handle} (hc : h.clientidText.length ≤ 62) (hu : h.usernameText.length ≤ 12)
    (hp : h.passwordText.length ≤ 12) : (payloadLen h).toNat =
      (field h.clientidText ++ optionalField h.usernameText ++ optionalField h.passwordText).length ∧
        (payloadLen h).toNat ≤ 92 := by
  have htwo : (2 : UInt16).toNat = 2 := rfl
  simp only [payloadLen, List.length_append, length_field,
    length_optionalField (by omega : h.usernameText.length < 65536),
    length_optionalField (by omega : h.passwordText.length < 65536)]
  split_ifs <;> simp only [UInt16.toNat_add, UInt16.toNat_ofNat', htwo] <;> omega

theorem takeField_header (h : Handle) (payload : List UInt8) : takeField (connectHeader h ++ payload) =
    some ([0x4d, 0x51, 0x49, 0x73, 0x64, 0x70],
      0x03 :: connectFlags h :: (htons h.alive ++ payload)) := by
  have hsix : (ntohs 0 6).toNat = 6 := rfl
  simp [connectHeader, takeField, hsix]

/-- A client whose strings are short connects with one packet, and the broker reads them. -/
theorem readConnect_connect {h : Handle} (hc : h.clientidText.length ≤ 62)
    (hu : h.usernameText.length ≤ 12) (hp : h.passwordText.length ≤ 12) :
    ∃ p, connect h = some p ∧ packetLen p = p.length ∧ readConnect p =
      some ⟨h.clientidText, h.usernameText, h.passwordText, h.alive, h.clean_session⟩ := by
  obtain ⟨hlen, hle⟩ := payloadLen_eq hc hu hp
  generalize hpayload : field h.clientidText ++ optionalField h.usernameText ++
    optionalField h.passwordText = payload at hlen
  have h12 : (12 : UInt16).toNat = 12 := rfl
  have h127 : (127 : UInt16).toNat = 127 := rfl
  have hremain : ((12 + payloadLen h).toUInt8.toUInt16).toNat = 12 + payload.length := by
    rw [UInt8.toNat_toUInt16, UInt16.toNat_toUInt8, UInt16.toNat_add, h12, hlen]
    omega
  have hheader : fixedHeader 0x10 (12 + payloadLen h).toUInt8.toUInt16 =
      [0x10, UInt8.ofNat (12 + payload.length)] := by
    rw [fixedHeader, if_pos (by rw [UInt16.le_iff_toNat_le, hremain, h127]; omega)]
    congr
    apply UInt8.toNat_inj.mp
    rw [UInt16.toNat_toUInt8, hremain, UInt8.toNat_ofNat']
  have hbody : (connectHeader h ++ payload).length = 12 + payload.length := by
    rw [List.length_append]
    rfl
  have hconnect : connect h =
      some (0x10 :: UInt8.ofNat (12 + payload.length) :: (connectHeader h ++ payload)) := by
    have htotal : (UInt16.ofNat [(0x10 : UInt8), UInt8.ofNat (12 + payload.length)].length + 12 +
        payloadLen h).toNat = 14 + payload.length := by
      rw [UInt16.toNat_add, UInt16.toNat_add, h12, UInt16.toNat_ofNat', hlen, List.length_cons,
        List.length_singleton]
      omega
    have hfit : ([0x10, UInt8.ofNat (12 + payload.length)] ++ (connectHeader h ++ payload)).length =
        14 + payload.length := by
      rw [List.length_append, hbody, List.length_cons, List.length_singleton]
      omega
    rw [connect, hheader, List.append_assoc, List.append_assoc, List.append_assoc,
      ← List.append_assoc (field _), hpayload, fill, htotal, hfit, if_pos (Nat.le_refl _), Nat.sub_self,
      List.replicate_zero, List.append_nil]
    rfl
  have hframe := (packetLen_byte 0x10 (by omega) hbody).mpr (by omega : 12 + payload.length < 128)
  refine ⟨_, hconnect, hframe, ?_⟩
  have hone := numRemLenBytes_one (by omega : 12 + payload.length < 128) 0x10
    (connectHeader h ++ payload)
  obtain ⟨hflagu, hflagp, hflagc⟩ := connectFlags_bits h
  have hclean : decide (connectFlags h &&& 2 ≠ 0) = h.clean_session := by
    rw [Bool.eq_iff_iff, decide_eq_true_iff]
    exact hflagc
  rw [readConnect, if_pos ⟨rfl, hframe⟩, hone, List.drop_succ_cons, List.drop_succ_cons, List.drop_zero,
    takeField_header, Option.bind_eq_bind, Option.bind_some]
  dsimp only [htons, List.cons_append, List.nil_append]
  rw [if_pos ⟨rfl, rfl⟩, ← hpayload, List.append_assoc, takeField_field, short_eq (by omega),
    Option.bind_some]
  dsimp only
  rw [takeOptional_field hflagu (by omega), Option.bind_some, ← List.append_nil (optionalField _),
    takeOptional_field hflagp (by omega), Option.bind_some]
  dsimp only
  rw [if_pos rfl, ntohs_htons, hclean]

/-- The broker gets the configured names, up to twelve characters of them, and the identifier exactly
when it is shorter than its place or goes on as the user name does. -/
theorem connect_client (clientid username password : Text) (alive : UInt16) : ∃ p c,
    connect (client clientid username password alive) = some p ∧ readConnect p = some c ∧
      c.username = username.val.take 12 ∧ c.password = password.val.take 12 ∧ c.alive = alive ∧
      c.clean_session = true ∧ (c.clientid = clientid.val ↔
        clientid.val.length < 50 ∨ clientid.val.drop 50 = username.val.take 12) := by
  have hclientid := clientidText_client clientid username password alive
  have huser := usernameText_client clientid username password alive
  have hpass := passwordText_client clientid username password alive
  have htake : ∀ s : List UInt8, (s.take 12).length ≤ 12 := fun s => List.length_take_le 12 s
  have hu := htake username.val
  have hp := htake password.val
  obtain ⟨p, hp, -, hc⟩ := readConnect_connect (h := client clientid username password alive) (by
    rw [hclientid]
    split_ifs
    · omega
    · rw [List.length_append, List.length_take]
      omega) (by rwa [huser]) (by rwa [hpass])
  refine ⟨p, _, hp, hc, huser, hpass, rfl, rfl, ?_⟩
  dsimp only
  rw [hclientid]
  split_ifs with hlt
  · exact iff_of_true rfl (.inl hlt)
  · constructor
    · intro h
      right
      have hdrop := congrArg (List.drop 50) h
      rw [List.drop_left' (by rw [List.length_take]; omega)] at hdrop
      exact hdrop.symm
    · rintro (h | h)
      · exact absurd h hlt
      · rw [← h, List.take_append_drop]

end Broker


section Frames

/-- The packets that the library sends. -/
inductive Control where
  | connect (clientid username password : Text) (alive : UInt16)
  | publish (seq : UInt16) (topic msg : Text) (retain : Bool) (qos : UInt8)
  | subscribe (seq : UInt16) (topic : Text)
  | unsubscribe (seq : UInt16) (topic : Text)
  | pubrel (message_id : UInt16)
  | ping
  | disconnect

def Control.packet : Control → Option (List UInt8)
  | .connect clientid username password alive => Wire.connect (client clientid username password alive)
  | .publish seq topic msg retain qos => (publishWithQos seq topic msg retain qos).map Prod.fst
  | .subscribe seq topic => Wire.subscribe seq topic
  | .unsubscribe seq topic => Wire.unsubscribe seq topic
  | .pubrel message_id => some (Wire.pubrel message_id)
  | .ping => some Wire.ping
  | .disconnect => some Wire.disconnect

/-- The remaining length is below the bound of its field. -/
def Control.Fits : Control → Prop
  | .publish _ topic msg _ qos => topic.val.length % 65536 + 2 + (if qos = 1 ∨ qos = 2 then 2 else 0) +
      msg.val.length % 65536 < 16384
  | .subscribe _ topic => topic.val.length % 65536 + 5 < 128
  | .unsubscribe _ topic => topic.val.length % 65536 + 4 < 128
  | _ => True

theorem length_identifier (seq : UInt16) (qos : UInt8) :
    (identifier seq qos).length = if qos = 1 ∨ qos = 2 then 2 else 0 := by
  rw [identifier]
  split_ifs <;> rfl

theorem packetLen_topicPacket {type : UInt8} {extra seq : UInt16} {topic : Text} {p : List UInt8}
    (hextra : extra.toNat ≤ 1) (h : topicPacket type extra seq topic = some p) :
    packetLen p = p.length ↔ topic.val.length % 65536 + 4 + extra.toNat < 128 := by
  obtain ⟨rfl, hlt⟩ := topicPacket_eq hextra h
  refine packetLen_byte type hlt ?_
  rw [List.length_append, List.length_append, htons_length, length_field, List.length_replicate]
  omega

/-- A packet is told from what is behind it exactly when its remaining length is below the bound. -/
theorem frames_iff (c : Control) {p : List UInt8} (h : c.packet = some p) :
    packetLen p = p.length ↔ c.Fits := by
  cases c with
  | connect clientid username password alive =>
    have hclientid := clientidText_client clientid username password alive
    have htake : ∀ s : List UInt8, (s.take 12).length ≤ 12 := fun s => List.length_take_le 12 s
    have hu := htake username.val
    obtain ⟨q, hq, hframe, -⟩ := readConnect_connect (h := client clientid username password alive) (by
      rw [hclientid]
      split_ifs
      · omega
      · rw [List.length_append, List.length_take]
        omega) (by rw [usernameText_client]; exact hu) (by rw [passwordText_client]; exact htake _)
    obtain rfl : q = p := Option.some.inj (hq.symm.trans h)
    exact iff_of_true hframe trivial
  | publish seq topic msg retain qos =>
    obtain ⟨⟨q, seq'⟩, hq, rfl⟩ := Option.map_eq_some_iff.mp h
    obtain ⟨n, rfl, hn⟩ := publishWithQos_eq hq
    rw [packetLen_fixedHeader _ n hn.symm, hn, Control.Fits]
    simp only [List.length_append, length_field, length_short, length_identifier]
    omega
  | subscribe seq topic =>
    rw [packetLen_topicPacket (by decide) h]
    exact Iff.rfl
  | unsubscribe seq topic =>
    rw [packetLen_topicPacket (by decide) h]
    exact Iff.rfl
  | pubrel message_id =>
    cases h
    have hframe := (packetLen_byte 0x62 (by decide) (htons_length message_id)).mpr (by decide)
    exact iff_of_true hframe trivial
  | ping =>
    cases h
    exact iff_of_true rfl trivial
  | disconnect =>
    cases h
    exact iff_of_true rfl trivial

theorem frames_iff_subscribe :
    (Control.subscribe 1 ⟨[97], by decide⟩).packet = some [0x82, 6, 0, 1, 0, 1, 97, 0] ∧
      (packetLen [0x82, 6, 0, 1, 0, 1, 97, 0] = 8 ↔ (Control.subscribe 1 ⟨[97], by decide⟩).Fits) :=
  ⟨rfl, frames_iff (.subscribe 1 ⟨[97], by decide⟩) rfl⟩

end Frames

section Reads

variable {type : UInt8} {n : UInt16} {body : List UInt8}

theorem fixedHeader_eq (type : UInt8) (hn : n.toNat < 16384) :
    fixedHeader type n = type :: encodeRemLen n.toNat := by
  have h127 : (127 : UInt16).toNat = 127 := rfl
  have hle : n ≤ 127 ↔ n.toNat < 128 := by
    rw [UInt16.le_iff_toNat_le, h127]
    omega
  rw [fixedHeader, encodeRemLen]
  by_cases hone : n.toNat < 128
  · rw [if_pos (hle.mpr hone), if_pos hone]
    rfl
  · have hmark : ∀ m < 128, UInt8.ofNat m ||| 0x80 = UInt8.ofNat (m + 128) := by decide +kernel
    rw [if_neg (mt hle.mp hone), if_neg hone, if_pos hn, ← hmark _ (Nat.mod_lt _ (by decide))]
    rfl

theorem fixedHeader_reads (type : UInt8) (hn : n.toNat < 16384) (body : List UInt8) :
    1 + numRemLenBytes (fixedHeader type n ++ body) = (fixedHeader type n).length ∧
      parseRemLen (fixedHeader type n ++ body) = n := by
  have hback : UInt16.ofNat n.toNat = n := UInt16.ofNat_toNat
  rw [fixedHeader_eq type hn, encodeRemLen]
  by_cases hone : n.toNat < 128
  · rw [if_pos hone, parseRemLen, List.cons_append, List.cons_append, List.tail_cons,
      parseRemLenFrom_one hone, numRemLenBytes_one hone]
    exact ⟨rfl, hback⟩
  · rw [if_neg hone, if_pos (by omega), parseRemLen, List.cons_append, List.cons_append,
      List.cons_append, List.tail_cons, parseRemLenFrom_two hn, numRemLenBytes_two hn]
    exact ⟨rfl, hback⟩

theorem map_getD {l : List UInt8} {j k : Nat} (h : j + k ≤ l.length) :
    ((List.range k).map fun i => l.getD (j + i) 0) = (l.drop j).take k := by
  refine List.ext_getElem (by simp; omega) fun i hi _ => ?_
  rw [List.length_map, List.length_range] at hi
  have hlt : j + i < l.length := by omega
  simp [hlt]

theorem getD_behind {as bs : List UInt8} {j : Nat} (h : as.length = j) (k : Nat) :
    (as ++ bs).getD (j + k) 0 = bs.getD k 0 := by
  rw [← h, List.getD_eq_getElem?_getD, List.getElem?_append_right (Nat.le_add_right _ _),
    Nat.add_sub_cancel_left, List.getD_eq_getElem?_getD]

theorem publishFlags_reads (retain : Bool) (qos : UInt8) (t : List UInt8) :
    msgType (publishFlags retain qos :: t) = Topic.msgPublish ∧
      ((publishFlags retain qos &&& 0x06) >>> 1 ≠ 0 ↔ qos = 1 ∨ qos = 2) := by
  rw [msgType, List.getD_cons_zero, publishFlags]
  by_cases h1 : qos = 1
  · cases retain <;> simp [h1, Topic.msgPublish] <;> decide
  · by_cases h2 : qos = 2
    · cases retain <;> simp [h2, Topic.msgPublish] <;> decide
    · cases retain <;> simp [h1, h2, Topic.msgPublish] <;> decide

variable {seq seq' : UInt16} {topic msg : Text} {retain : Bool} {qos : UInt8} {p : List UInt8}

/-- What the library reads of a message that it has sent itself. The topic is always found; the message
and its identifier are when the headers take less than 256 bytes, and otherwise the message is looked
for elsewhere. -/
theorem publish_reads (h : publishWithQos seq topic msg retain qos = some (p, seq'))
    (hframe : packetLen p = p.length) :
    Topic.pubTopic p = short topic.val ∧
      ((Topic.pubMsg p).1.toNat = p.length - (short msg.val).length ↔
        p.length - (short msg.val).length < 256) ∧
      (p.length - (short msg.val).length < 256 →
        (p.drop (Topic.pubMsg p).1.toNat).take (Topic.pubMsg p).2.toNat = short msg.val ∧
          parseMsgId p = if qos = 1 ∨ qos = 2 then seq else 0) := by
  obtain ⟨n, rfl, hn⟩ := publishWithQos_eq h
  rw [packetLen_fixedHeader _ n hn.symm] at hframe
  have hid := length_identifier seq qos
  have hmsg := length_short msg.val
  have htopic := length_short topic.val
  have hfield := length_field topic.val
  obtain ⟨hhead, hrem⟩ := fixedHeader_reads (publishFlags retain qos) hframe
    (field topic.val ++ identifier seq qos ++ short msg.val)
  obtain ⟨hi, lo, hword⟩ : ∃ hi lo, htons (UInt16.ofNat topic.val.length) = [hi, lo] := ⟨_, _, rfl⟩
  have hlen : ntohs hi lo = UInt16.ofNat topic.val.length ∧ lo.toNat = topic.val.length % 256 := by
    obtain ⟨rfl, hl⟩ := List.cons.inj hword
    obtain ⟨rfl, -⟩ := List.cons.inj hl
    refine ⟨ntohs_htons _, ?_⟩
    rw [UInt8.toNat_ofNat', UInt16.toNat_ofNat']
    omega
  obtain ⟨buf, hbuf⟩ : ∃ buf, buf = fixedHeader (publishFlags retain qos) n ++
    (field topic.val ++ identifier seq qos ++ short msg.val) := ⟨_, rfl⟩
  rw [← hbuf] at hhead hrem ⊢
  have hbehind : buf = (fixedHeader (publishFlags retain qos) n ++ [hi, lo]) ++
      (short topic.val ++ (identifier seq qos ++ short msg.val)) := by
    rw [hbuf, field_eq, hword]
    simp
  have hend : buf = (fixedHeader (publishFlags retain qos) n ++
      (field topic.val ++ identifier seq qos)) ++ short msg.val := by
    rw [hbuf]
    simp only [List.append_assoc]
  have hget : ∀ k, buf.getD (1 + numRemLenBytes buf + k) 0 =
      (hi :: lo :: (short topic.val ++ (identifier seq qos ++ short msg.val))).getD k 0 := by
    intro k
    have hcons : buf = fixedHeader (publishFlags retain qos) n ++
        hi :: lo :: (short topic.val ++ (identifier seq qos ++ short msg.val)) := by
      rw [hbehind, List.append_assoc]
      rfl
    have hk := @getD_behind _ (hi :: lo :: (short topic.val ++ (identifier seq qos ++ short msg.val))) _
      hhead.symm k
    rwa [← hcons] at hk
  have hflags : msgType buf = Topic.msgPublish ∧
      ((buf.getD 0 0 &&& 0x06) >>> 1 ≠ 0 ↔ qos = 1 ∨ qos = 2) := by
    rw [hbuf, fixedHeader_eq _ hframe]
    exact publishFlags_reads retain qos _
  have hstart : buf.length - (short msg.val).length = 1 + numRemLenBytes buf + 2 +
      topic.val.length % 65536 + if qos = 1 ∨ qos = 2 then 2 else 0 := by
    rw [hend, List.length_append, Nat.add_sub_cancel, List.length_append, List.length_append, hfield,
      hid, ← hhead, ← hend]
    omega
  have hrlb := numRemLenBytes_le buf
  have hhi : buf.getD (1 + numRemLenBytes buf) 0 = hi := hget 0
  have hlo : buf.getD (1 + numRemLenBytes buf + 1) 0 = lo := hget 1
  have hoffset : (Topic.pubMsg buf).1.toNat = (buf.length - (short msg.val).length) % 256 := by
    rw [Topic.pubMsg, if_pos hflags.1]
    dsimp only
    rw [hlo, hstart]
    split_ifs with h1 h2 h2
    · rw [UInt8.toNat_add, UInt8.toNat_add, UInt8.toNat_ofNat', hlen.2]
      have htwo : (2 : UInt8).toNat = 2 := rfl
      omega
    · exact absurd (hflags.2.mp h1) h2
    · exact absurd (hflags.2.mpr h2) h1
    · rw [UInt8.toNat_add, UInt8.toNat_ofNat', hlen.2]
      omega
  refine ⟨?_, by rw [hoffset]; omega, fun hsmall => ⟨?_, ?_⟩⟩
  · have htopicLen : Topic.pubTopicLen buf = UInt16.ofNat topic.val.length := by
      rw [Topic.pubTopicLen, if_pos hflags.1, hhi, hlo, hlen.1]
    have hfit : 1 + numRemLenBytes buf + 2 + (UInt16.ofNat topic.val.length).toNat ≤ buf.length := by
      rw [UInt16.toNat_ofNat']
      omega
    rw [Topic.pubTopic, htopicLen, map_getD hfit, hbehind, List.drop_left' (by
      rw [← hbehind, List.length_append, ← hhead]
      rfl), UInt16.toNat_ofNat', List.take_left' htopic]
  · have hstart' := hoffset
    rw [Nat.mod_eq_of_lt hsmall] at hstart'
    have hlen' : (Topic.pubMsg buf).2.toNat = (short msg.val).length := by
      rw [Topic.pubMsg, if_pos hflags.1] at hstart' ⊢
      dsimp only at hstart' ⊢
      rw [hrem, UInt16.toNat_sub, UInt16.toNat_sub, UInt8.toNat_toUInt16, hstart', UInt16.toNat_ofNat']
      have htotal := hn
      simp only [List.length_append] at htotal
      omega
    rw [hstart', hlen', hend, List.length_append, Nat.add_sub_cancel, List.drop_left, List.take_length]
  · rw [parseMsgId, if_pos (by rw [hflags.1]; decide), if_pos hflags.1]
    by_cases hq : qos = 1 ∨ qos = 2
    · have hplace : (lo + UInt8.ofNat (1 + numRemLenBytes buf + 2)).toNat =
          1 + numRemLenBytes buf + 2 + topic.val.length % 65536 := by
        rw [if_pos hq] at hstart
        rw [UInt8.toNat_add, UInt8.toNat_ofNat', hlen.2]
        omega
      have hbefore : (fixedHeader (publishFlags retain qos) n ++ field topic.val).length =
          1 + numRemLenBytes buf + 2 + topic.val.length % 65536 := by
        rw [List.length_append, ← hhead, hfield]
        omega
      have hword' : buf = (fixedHeader (publishFlags retain qos) n ++ field topic.val) ++
          UInt8.ofNat (seq.toNat / 256) :: UInt8.ofNat seq.toNat :: short msg.val := by
        rw [hbuf, identifier, if_pos hq, htons]
        simp only [List.append_assoc, List.cons_append, List.nil_append]
      have hk := @getD_behind _
        (UInt8.ofNat (seq.toNat / 256) :: UInt8.ofNat seq.toNat :: short msg.val) _ hbefore
      rw [← hword'] at hk
      rw [if_pos (hflags.2.mpr hq), if_pos hq, hlo]
      dsimp only
      rw [hplace, hk 1]
      exact (congrArg (ntohs · _) (hk 0)).trans (ntohs_htons seq)
    · rw [if_neg (mt hflags.2.mp hq), if_neg hq]

/-- A message as it is sent, small enough for the receive buffer. -/
structure Published where
  seq : UInt16
  seq' : UInt16
  topic : Text
  msg : Text
  retain : Bool
  qos : UInt8
  p : List UInt8
  sent : publishWithQos seq topic msg retain qos = some (p, seq')
  size : p.length ≤ recvBuffSize
  topic_le : topic.val.length ≤ Topic.topicLength
  msg_lt : msg.val.length < 65536

theorem Published.packet (m : Published) :
    ∃ q : Packet, q.bytes = m.p ∧ msgType m.p = Topic.msgPublish := by
  obtain ⟨n, hp, hn⟩ := publishWithQos_eq m.sent
  have hsize := m.size
  rw [hp, List.length_append, ← hn, recvBuffSize] at hsize
  have hlt : n.toNat < 16384 := by omega
  rw [fixedHeader_eq _ hlt, hn, List.cons_append] at hp
  have htype := (publishFlags_reads m.retain m.qos [])
  have hflags : 16 ≤ (publishFlags m.retain m.qos).toNat ∧
      (publishFlags m.retain m.qos).toNat < 240 := by
    have hthree := htype.1
    rw [msgType, List.getD_cons_zero, Topic.msgPublish] at hthree
    omega
  refine ⟨⟨_, _, hflags.1, hflags.2, by omega⟩, hp.symm, ?_⟩
  rw [hp]
  exact (publishFlags_reads m.retain m.qos _).1

theorem Published.reads (m : Published) : Topic.pubTopic m.p = m.topic.val ∧
    (m.p.drop (Topic.pubMsg m.p).1.toNat).take (Topic.pubMsg m.p).2.toNat = m.msg.val ∧
      parseMsgId m.p = if m.qos = 1 ∨ m.qos = 2 then m.seq else 0 := by
  obtain ⟨n, hp, hn⟩ := publishWithQos_eq m.sent
  have hsize := m.size
  have htopic := m.topic_le
  rw [Topic.topicLength] at htopic
  have hmsg := short_eq m.msg_lt
  have hid := length_identifier m.seq m.qos
  have hhead := length_fixedHeader (publishFlags m.retain m.qos) n
  have hframe : packetLen m.p = m.p.length := by
    rw [hp, packetLen_fixedHeader _ n hn.symm]
    rw [hp, List.length_append, ← hn, recvBuffSize] at hsize
    omega
  have hstart : m.p.length - (short m.msg.val).length < 256 := by
    rw [hp, List.length_append, List.length_append, List.length_append, length_field, hid, hhead]
    split_ifs <;> omega
  obtain ⟨hread, -, hrest⟩ := publish_reads m.sent hframe
  obtain ⟨hslice, hident⟩ := hrest hstart
  rw [short_eq (by omega)] at hread
  rw [hmsg] at hslice
  exact ⟨hread, hslice, hident⟩

/-- The messages of one node at another, with TLS and without: wherever the stream is cut, each is
handed on once, whole and in order exactly when the receives are aligned with the packets, and its
topic, text and identifier are those that were sent. -/
theorem loopback (bEnabled : Bool) (ms : List Published) (cs : List (List UInt8))
    (h : cs.flatten = (ms.map Published.p).flatten) :
    (deliveries bEnabled cs = ms.map (fun m => (Topic.msgPublish, m.p)) ↔
      Aligned bEnabled cs (ms.map Published.p)) ∧
      ∀ m ∈ ms, Topic.pubTopic m.p = m.topic.val ∧
        (m.p.drop (Topic.pubMsg m.p).1.toNat).take (Topic.pubMsg m.p).2.toNat = m.msg.val ∧
          parseMsgId m.p = if m.qos = 1 ∨ m.qos = 2 then m.seq else 0 := by
  refine ⟨?_, fun m _ => m.reads⟩
  obtain ⟨qs, hqs, htypes⟩ : ∃ qs : List Packet, qs.map Packet.bytes = ms.map Published.p ∧
      qs.map (fun q => (msgType q.bytes, q.bytes)) = ms.map fun m => (Topic.msgPublish, m.p) := by
    induction ms generalizing cs with
    | nil => exact ⟨[], rfl, rfl⟩
    | cons m ms ih =>
      obtain ⟨q, hq, htype⟩ := m.packet
      obtain ⟨qs, hqs, htypes⟩ := ih _ rfl
      refine ⟨q :: qs, ?_, ?_⟩
      · rw [List.map_cons, List.map_cons, hq, hqs]
      · rw [List.map_cons, List.map_cons, htypes, hq, htype]
  rw [← htypes, ← hqs]
  exact deliveries_eq_iff bEnabled qs cs (by rw [h, hqs])

def hello : Published where
  seq := 1
  seq' := 2
  topic := ⟨[97], by decide⟩
  msg := ⟨[104, 105], by decide⟩
  retain := false
  qos := 1
  p := [0x32, 7, 0, 1, 97, 0, 1, 104, 105]
  sent := rfl
  size := by decide
  topic_le := by decide
  msg_lt := by decide

theorem loopback_hello :
    [[0x32, 7, 0], [1, 97, 0, 1, 104, 105]].flatten = ([hello].map Published.p).flatten ∧
    (deliveries false [[0x32, 7, 0], [1, 97, 0, 1, 104, 105]] =
        [hello].map (fun m => (Topic.msgPublish, m.p)) ↔
      Aligned false [[0x32, 7, 0], [1, 97, 0, 1, 104, 105]] ([hello].map Published.p)) ∧
      ∀ m ∈ [hello], Topic.pubTopic m.p = m.topic.val ∧
        (m.p.drop (Topic.pubMsg m.p).1.toNat).take (Topic.pubMsg m.p).2.toNat = m.msg.val ∧
          parseMsgId m.p = if m.qos = 1 ∨ m.qos = 2 then m.seq else 0 :=
  ⟨rfl, loopback false [hello] [[0x32, 7, 0], [1, 97, 0, 1, 104, 105]] rfl⟩

end Reads

end EdgeNode.Mqtt.Wire
