import EdgeNode.Lib.CString
import EdgeNode.Mqtt.Packet
import EdgeNode.Types

/-! `FTE_MQTT_MSG_CB_publish`: the topic of a received message, copied to the stack and split into its
fields there. -/

namespace EdgeNode.Mqtt.Topic

open CString

/-- `FTE_MQTT_TOPIC_LENGTH`. -/
def topicLength : Nat := 128

/-- The entries of `pFields`. -/
def fieldMax : Nat := 10

def slash : UInt8 := 47

def msgPublish : Nat := 3

section Libemqtt

variable (buf : List UInt8)

/-- `mqtt_parse_pub_topic_ptr`, the length. -/
def pubTopicLen : UInt16 :=
  if msgType buf = msgPublish then
    ntohs (buf.getD (1 + numRemLenBytes buf) 0) (buf.getD (1 + numRemLenBytes buf + 1) 0)
  else 0

/-- The bytes that `mqtt_parse_pub_topic` copies. -/
def pubTopic : List UInt8 :=
  (List.range (pubTopicLen buf).toNat).map fun i => buf.getD (1 + numRemLenBytes buf + 2 + i) 0

/-- `mqtt_parse_pub_msg_ptr`: the offset of the message, in a byte, and its length. -/
def pubMsg : UInt8 × UInt16 :=
  if msgType buf = msgPublish then
    let rlb := numRemLenBytes buf
    let offset := buf.getD (1 + rlb + 1) 0 + UInt8.ofNat (1 + rlb + 2)
    let offset := if (buf.getD 0 0 &&& 0x06) >>> 1 ≠ 0 then offset + 2 else offset
    (offset, parseRemLen buf - (offset.toUInt16 - UInt16.ofNat (rlb + 1)))
  else (0, 0)

end Libemqtt

/-- What the callback makes of a message. -/
inductive Handling where
  | invalidTopic
  | request (pData : UInt8) (nDataLen : UInt16)

/-- The fields from `save` on with `n` entries of the table left, the last of them `NULL`. Every round
writes the next entry. -/
def splitFrom : Nat → List UInt8 → Nat → Option (List UInt8 × List Nat)
  | 0, _, _ => none
  | n + 1, pTopic, save => do
    let (pTopic, pField, save) ← strtok pTopic save slash
    match pField with
    | none => some (pTopic, [])
    | some p => do
      let (pTopic, pFields) ← splitFrom n pTopic save
      some (pTopic, p :: pFields)

/-- The stack buffer, of one byte more than a topic may have. -/
abbrev Buffer := { pTopic : List UInt8 // pTopic.length = topicLength + 1 }

/-- The copy and the split; without a value where they write behind the buffer or the table. -/
def splitTopic (buf : List UInt8) (pTopic : Buffer) : Option (List UInt8 × List Nat) := do
  let pTopic ← pokeBytes pTopic.val 0 (pubTopic buf)
  let pTopic ← poke pTopic (pubTopicLen buf).toNat 0
  splitFrom fieldMax pTopic 0

/-- `FTE_MQTT_MSG_CB_publish`, for the device with the identifier `oid`. -/
def publish (oid : List UInt8) (buf : List UInt8) (pTopic : Buffer) : Option Handling := do
  let (pTopic, pFields) ← splitTopic buf pTopic
  match pFields.map (textAt pTopic) with
  | v :: a :: g :: id :: cmd :: _ =>
    if v ≠ [118] ∨ a ≠ [97] ∨ g ≠ [103] ∨ id ≠ oid then some .invalidTopic
    else if cmd = [114, 101, 113] then some (.request (pubMsg buf).1 (pubMsg buf).2)
    else some .invalidTopic
  | _ => some .invalidTopic

section Split

variable {pre post : List UInt8}

theorem slash_ne_zero : slash ≠ 0 := by decide

theorem splitFrom_skip (n : Nat) (pre post : List UInt8) :
    splitFrom n (pre ++ slash :: post) pre.length =
      splitFrom n ((pre ++ [slash]) ++ post) (pre ++ [slash]).length := by
  cases n with
  | zero => rfl
  | succ n => rw [splitFrom, strtok_skip, splitFrom]

theorem splitFrom_end (pre post : List UInt8) (n : Nat) :
    (splitFrom n (pre ++ 0 :: post) pre.length).isSome = true ↔ 0 < n := by
  cases n with
  | zero => simp [splitFrom]
  | succ n => simp [splitFrom, strtok_end slash_ne_zero]

theorem splitFrom_token {pTopic pTopic' : List UInt8} {save p save' : Nat} (n : Nat)
    (h : strtok pTopic save slash = some (pTopic', some p, save')) :
    (splitFrom (n + 1) pTopic save).isSome = (splitFrom n pTopic' save').isSome := by
  rw [splitFrom, h]
  simp only [Option.bind_eq_bind, Option.bind_some]
  cases splitFrom n pTopic' save' <;> rfl

/-- The table takes the fields and the `NULL` behind them. -/
theorem splitFrom_isSome (s : List UInt8) (hs : 0 ∉ s) (pre post : List UInt8) (n : Nat) :
    (splitFrom n (pre ++ (s ++ 0 :: post)) pre.length).isSome = true ↔
      (tokens slash s).length < n := by
  induction s using split_induction slash generalizing pre n with
  | last s hlast =>
    rw [tokens_last hlast]
    by_cases hnil : s = []
    · rw [if_pos hnil, hnil]
      exact splitFrom_end pre post n
    · rw [if_neg hnil]
      cases n with
      | zero => simp [splitFrom]
      | succ n =>
        have htoken := strtok_token pre post hlast hs hnil (.inr rfl)
        rw [if_pos rfl] at htoken
        have hend := splitFrom_end (pre ++ s) post n
        rw [List.append_assoc, List.length_append] at hend
        rw [splitFrom_token n htoken, hend, List.length_singleton, Nat.lt_add_left_iff_pos]
  | next piece s hpiece ih =>
    have hz : 0 ∉ s := fun h => hs (List.mem_append_right _ (List.mem_cons_of_mem _ h))
    have hzp : 0 ∉ piece := fun h => hs (List.mem_append_left _ h)
    rw [tokens_next hpiece, List.length_append]
    by_cases hnil : piece = []
    · rw [if_pos hnil, hnil, List.length_nil, Nat.zero_add, List.nil_append, List.cons_append,
        splitFrom_skip]
      exact ih hz (pre ++ [slash]) n
    · rw [if_neg hnil]
      cases n with
      | zero => simp [splitFrom]
      | succ n =>
        have htoken := strtok_token pre (s ++ 0 :: post) hpiece hzp hnil (.inl rfl)
        rw [if_neg slash_ne_zero] at htoken
        have hrest := ih hz (pre ++ (piece ++ [0])) n
        have hbuf : pre ++ (piece ++ [0]) ++ (s ++ 0 :: post) =
            pre ++ (piece ++ 0 :: (s ++ 0 :: post)) := by simp
        have hpos : (pre ++ (piece ++ [0])).length = pre.length + piece.length + 1 := by
          simp [Nat.add_assoc]
        rw [hbuf, hpos] at hrest
        rw [List.append_assoc, List.cons_append, splitFrom_token n htoken, hrest,
          List.length_singleton, Nat.add_comm 1, Nat.add_lt_add_iff_right]

end Split

section Bounds

variable {oid buf : List UInt8} {pTopic : Buffer}

/-- The topic up to its first terminator, which is the string that is split. -/
def topicText (buf : List UInt8) : List UInt8 := (pubTopic buf).takeWhile (· ≠ 0)

theorem zero_not_mem_takeWhile (bs : List UInt8) : 0 ∉ bs.takeWhile (· ≠ 0) := by
  intro h
  simpa using List.all_eq_true.mp List.all_takeWhile 0 h

theorem exists_string (bs post : List UInt8) :
    ∃ post', bs ++ 0 :: post = bs.takeWhile (· ≠ 0) ++ 0 :: post' := by
  induction bs with
  | nil => exact ⟨post, rfl⟩
  | cons b bs ih =>
    obtain ⟨post', hpost⟩ := ih
    by_cases hb : b = 0
    · exact ⟨bs ++ 0 :: post, by simp [hb]⟩
    · exact ⟨post', by simp [hb, hpost]⟩

theorem length_pubTopic (buf : List UInt8) : (pubTopic buf).length = (pubTopicLen buf).toNat := by
  rw [pubTopic, List.length_map, List.length_range]

theorem splitTopic_isSome (buf : List UInt8) (pTopic : Buffer) : (splitTopic buf pTopic).isSome = true ↔
    (pubTopicLen buf).toNat ≤ topicLength ∧ (tokens slash (topicText buf)).length < fieldMax := by
  have hsize := pTopic.property
  have hlen := length_pubTopic buf
  rw [splitTopic, pokeBytes_eq _ _ _ (Nat.zero_le _), Nat.zero_add, hlen, hsize]
  by_cases hfit : (pubTopicLen buf).toNat ≤ topicLength
  · have hcopy : (pubTopicLen buf).toNat ≤ topicLength + 1 := Nat.le_succ_of_le hfit
    have hrest : pTopic.val.drop (pubTopicLen buf).toNat ≠ [] := by
      intro hnil
      have hnone := List.drop_eq_nil_iff.mp hnil
      omega
    obtain ⟨b, post, hb⟩ := List.exists_cons_of_ne_nil hrest
    obtain ⟨post', hstring⟩ := exists_string (pubTopic buf) post
    have hpoke := poke_append (pubTopic buf) post b 0
    rw [hlen, hstring] at hpoke
    rw [if_pos hcopy, and_iff_right hfit, hb, List.take_zero, List.nil_append]
    simp only [Option.bind_eq_bind, Option.bind_some]
    rw [hpoke, Option.bind_some]
    exact splitFrom_isSome (topicText buf) (zero_not_mem_takeWhile _) [] post' fieldMax
  · apply iff_of_false
    · by_cases hcopy : (pubTopicLen buf).toNat ≤ topicLength + 1
      · -- the copy fills the buffer and the terminator is written behind it
        have hend : ¬ (pubTopicLen buf).toNat < (pTopic.val.take 0 ++
            (pubTopic buf ++ pTopic.val.drop (pubTopicLen buf).toNat)).length := by
          rw [List.length_append, List.length_append, List.length_take, List.length_drop, hlen,
            hsize]
          omega
        rw [if_pos hcopy]
        simp only [Option.bind_eq_bind, Option.bind_some]
        rw [poke, if_neg hend]
        exact Bool.false_ne_true
      · rw [if_neg hcopy]
        exact Bool.false_ne_true
    · exact fun h => hfit h.1

/-- The topic is copied whatever its length, and the table is filled before its end is looked at. -/
theorem publish_isSome : (publish oid buf pTopic).isSome = true ↔
    (pubTopicLen buf).toNat ≤ topicLength ∧ (tokens slash (topicText buf)).length < fieldMax := by
  rw [← splitTopic_isSome buf pTopic, publish]
  cases splitTopic buf pTopic with
  | none => rfl
  | some r =>
    simp only [Option.bind_eq_bind, Option.bind_some]
    split
    · split_ifs <;> rfl
    · rfl

/-- The topic `a/a/a/a/a/a/a/a/a/a` has as many fields as the table has entries, and the `NULL` goes
behind them. -/
theorem ten_fields : ∃ (buf : List UInt8) (pTopic : Buffer), (pubTopicLen buf).toNat = 19 ∧
    ¬ (publish [] buf pTopic).isSome = true :=
  ⟨[0x30, 21, 0, 19, 97, 47, 97, 47, 97, 47, 97, 47, 97, 47, 97, 47, 97, 47, 97, 47, 97, 47, 97],
    ⟨List.replicate 129 0, rfl⟩, by decide, by decide +kernel⟩

end Bounds

end EdgeNode.Mqtt.Topic
