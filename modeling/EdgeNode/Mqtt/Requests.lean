import EdgeNode.Lib.Runs
import EdgeNode.Nxjson.Texts
import EdgeNode.Utils.HexText
import EdgeNode.Types

/-! The requests of the server: `FTE_MQTT_MSG_processing` and the methods that it calls. -/

namespace EdgeNode.Mqtt.Requests

open Nxjson JsonText Numerals

/-- The bytes of a string literal. -/
def text (s : String) : List UInt8 := Utf8.encode s.toList

/-- `FTE_MQTT_RET_ERROR` -/
def retMqttError : Ret := 0x1F00

/-- What the methods do to the node and to the broker. -/
inductive Call where
  | setValue (nID ulValue : UInt32)
  | publish (pTopic pBuff : List Char)
  deriving DecidableEq

/-- What the methods find: the objects that are there, the values of the one with the lamps, the memory
for a value and the address of the node. -/
structure Gateway where
  registered : UInt32 → Bool
  valueAt : Nat → Option UInt32
  allocated : Bool
  pMAC : { mac : List UInt8 // mac.length = 6 }

section Items

variable {δ τ : Type}

def isNull (js : Node δ τ) : Bool :=
  match js.type with
  | .null => true
  | _ => false

/-- `text_value`, which is `NULL` but in a string. -/
def textValue (js : Node δ τ) : Option τ :=
  match js.type with
  | .string s => some s
  | _ => none

/-- `int_value`, which is zero but in a number and a boolean. -/
def intValue (js : Node δ τ) : Int64 :=
  match js.type with
  | .integer i _ => i
  | .double i _ => i
  | .bool i => i
  | _ => 0

end Items

section Methods

variable {δ : Type}

/-- `sizeof(pBuff)` and `sizeof(pTopic)` in `FTE_MQTT_METHOD_FTLM_CB_deviceGet`. -/
def buffSize : Nat := 512
def topicSize : Nat := 32

/-- The values from the index `i` on. One that is not there leaves `pValue` as it was. -/
def readValues (valueAt : Nat → Option UInt32) : Nat → Nat → UInt32 → List UInt32
  | 0, _, _ => []
  | n + 1, i, pValue =>
    let pValue := (valueAt i).getD pValue
    pValue :: readValues valueAt n (i + 1) pValue

def printValue (p : UInt32 × Nat) : List Char :=
  ['\x7b', '"', 'i', 'd', '"', ':'] ++ decimal 0 (p.2 + 1 : Nat) ++
    [',', '"', 'v', 'a', 'l', 'u', 'e', '"', ':'] ++ decimal 0 p.1.toInt32.toInt ++ ['\x7d']

/-- The text in `pBuff`. -/
def deviceGetText (pulValues : List UInt32) : List Char :=
  ['\x7b', '"', 'm', 'e', 't', 'h', 'o', 'd', '"', ':', '"', 'd', 'e', 'v', 'i', 'c', 'e', 'G', 'e', 't',
    '"', ',', '"', 'p', 'a', 'r', 'a', 'm', 's', '"', ':', '['] ++
    join (pulValues.zipIdx.map printValue) ++ [']', '\x7d']

/-- The text in `pTopic`. -/
def responseTopic (pMAC : List UInt8) : List Char :=
  ['/', 'v', '/', 'a', '/', 'g', '/'] ++
    (pMAC.flatMap fun b => hex 2 b.toNat) ++ ['/', 'r', 'e', 's', 'p']

/-- `FTE_MQTT_METHOD_FTLM_CB_deviceGet`; without a value where a text does not fit on the stack. -/
def deviceGet (g : Gateway) : Option (Ret × List Call) :=
  if g.registered 0x7f090001 = false then some (retError, [])
  else if g.allocated = false then some (retError, [])
  else
    let pBuff := deviceGetText (readValues g.valueAt 9 0 0)
    let pTopic := responseTopic g.pMAC
    if pBuff.length < buffSize ∧ pTopic.length < topicSize then
      some (retOk, [.publish pTopic pBuff])
    else none

/-- `cmd`, `level` and `time` in the value of a lamp. -/
def pack (cmd level time : Int64) : UInt32 :=
  cmd.toUInt64.toUInt8.toUInt32 ||| level.toUInt64.toUInt8.toUInt32 <<< 8 |||
    time.toUInt64.toUInt8.toUInt32 <<< 16

/-- The object and its value for an item, unless the item ends the loop with an error. -/
def command (pItem : Node δ (List UInt8)) : Option (UInt32 × UInt32) :=
  let pID := get pItem (text "id")
  let pCmd := get pItem (text "cmd")
  let pLevel := get pItem (text "level")
  let pTime := get pItem (text "time")
  if isNull pID ∨ isNull pCmd ∨ isNull pLevel ∨ isNull pTime then none
  else if intValue pID < 1 ∨ 9 < intValue pID then none
  else if intValue pCmd < 0 ∨ 255 < intValue pCmd then none
  else if intValue pLevel < 0 ∨ 255 < intValue pLevel then none
  else if intValue pTime < 0 ∨ 255 < intValue pTime then none
  else
    some ((0x0a810900 + intValue pID).toUInt64.toUInt32,
      pack (intValue pCmd) (intValue pLevel) (intValue pTime))

/-- The loop of `FTE_MQTT_METHOD_FTLM_CB_deviceSet` over the items that are left. Behind the last it
gets the dummy, which is null. -/
def setItems (registered : UInt32 → Bool) : List (Node δ (List UInt8)) → Ret × List Call
  | [] => (retOk, [])
  | pItem :: items =>
    if isNull pItem then (retOk, [])
    else
      match command pItem with
      | none => (retError, [])
      | some (nID, ulValue) =>
        let (xRet, calls) := setItems registered items
        (xRet, if registered nID then .setValue nID ulValue :: calls else calls)

def deviceSet (g : Gateway) (pParams : Node δ (List UInt8)) : Ret × List Call :=
  setItems g.registered pParams.child

/-- `_pFTLMMethods` -/
inductive Method where
  | deviceGet
  | deviceSet
  | groupGet
  | groupSet
  deriving DecidableEq

def Method.pString : Method → List UInt8
  | .deviceGet => text "deviceGet"
  | .deviceSet => text "deviceSet"
  | .groupGet => text "groupGet"
  | .groupSet => text "groupSet"

/-- `FTE_MQTT_METHOD_get` of a string. -/
def methodGet (pString : List UInt8) : Option Method :=
  [Method.deviceGet, .deviceSet, .groupGet, .groupSet].find? fun m => m.pString = pString

/-- `fCallback`; those for groups do nothing. -/
def Method.call (g : Gateway) (pParams : Node δ (List UInt8)) : Method → Option (Ret × List Call)
  | .deviceGet => Requests.deviceGet g
  | .deviceSet => some (Requests.deviceSet g pParams)
  | .groupGet => some (retOk, [])
  | .groupSet => some (retOk, [])

end Methods

section Processing

variable {δ : Type} (d : Doubles δ)

/-- `FTE_MQTT_CMD_REQ` -/
def cmdReq : UInt8 := 1

/-- The allocation of `FTE_MQTT_MSG_create` from `pData` on. -/
def msgCreate (pData : List UInt8) : List UInt8 := pData ++ [0]

/-- The request whose tree is `pRoot`. `strcmp` is without a value for `NULL`; what the method returns
is dropped. -/
def dispatch (g : Gateway) (pRoot : Node δ (List UInt8)) : Option (List Call) := do
  let pString ← textValue (get pRoot (text "method"))
  match methodGet pString with
  | none => some []
  | some pMethod =>
    let (_, calls) ← pMethod.call g (get pRoot (text "params"))
    some calls

/-- `FTE_MQTT_MSG_processing` with the `errno` of its task. -/
def processing (g : Gateway) (nCmd : UInt8) (pData : List UInt8) (erange : Bool) :
    Option (Ret × List Call × Bool) :=
  if nCmd = cmdReq then do
    let (pRoot, m) ← parse d true ⟨msgCreate pData, erange⟩ 0
    match pRoot with
    | none => some (retMqttError, [], m.erange)
    | some pRoot =>
      let calls ← dispatch g (pRoot.map (CString.textAt m.buf))
      some (retOk, calls, m.erange)
  else some (retOk, [], erange)

end Processing


section Reply

variable {pulValues : List UInt32}

/-- What the server is told of the lamps. -/
def reply (pulValues : List UInt32) : Json :=
  .object [(['m', 'e', 't', 'h', 'o', 'd'], .string ['d', 'e', 'v', 'i', 'c', 'e', 'G', 'e', 't']),
    (['p', 'a', 'r', 'a', 'm', 's'], .array (pulValues.zipIdx.map fun p =>
      .object [(['i', 'd'], .number (p.2 + 1)),
        (['v', 'a', 'l', 'u', 'e'], .number p.1.toInt32.toInt)]))]

theorem readsMember_plain {s cs rest : List Char} {j : Json} (hs : Plain s) (h : Reads cs j rest) :
    ReadsMember ('"' :: (s ++ '"' :: ':' :: cs)) (s, j) rest :=
  readsMember_chars (chars_plain hs (':' :: cs)) h

theorem printValue_reads (p : UInt32 × Nat) (rest : List Char) : Reads (printValue p ++ rest)
    (.object [(['i', 'd'], .number (p.2 + 1)), (['v', 'a', 'l', 'u', 'e'], .number p.1.toInt32.toInt)])
    rest := by
  have hid : NumberText (decimal 0 (p.2 + 1 : Nat)) (p.2 + 1) := by
    simpa using numberText_decimal (p.2 + 1 : Nat)
  have hvalue := numberText_decimal p.1.toInt32.toInt
  have hlast : Items ReadsMember '}' ('"' :: (['v', 'a', 'l', 'u', 'e'] ++ '"' :: ':' ::
      (decimal 0 p.1.toInt32.toInt ++ '}' :: rest)))
      [(['v', 'a', 'l', 'u', 'e'], .number p.1.toInt32.toInt)] rest :=
    .last spaces_nil (readsMember_plain (by decide) (.number rfl hvalue))
  have hitems : Items ReadsMember '}' _ _ rest := .more spaces_nil
    (readsMember_plain (s := ['i', 'd']) (by decide) (.number rfl hid)) hlast
  simpa [printValue] using Reads.object hitems

theorem deviceGetText_denotes (h : pulValues ≠ []) :
    Denotes (deviceGetText pulValues) (reply pulValues) := by
  have hmethod : ∀ rest, Reads ('"' :: (['d', 'e', 'v', 'i', 'c', 'e', 'G', 'e', 't'] ++ '"' :: rest))
      (.string ['d', 'e', 'v', 'i', 'c', 'e', 'G', 'e', 't']) rest :=
    fun rest => .string (chars_plain (by decide) rest)
  have hvalues : List.Forall₂ (fun p j => ∀ rest, Reads (printValue p ++ rest) j rest)
      pulValues.zipIdx (pulValues.zipIdx.map fun p => .object [(['i', 'd'], .number (p.2 + 1)),
        (['v', 'a', 'l', 'u', 'e'], .number p.1.toInt32.toInt)]) := by
    rw [List.forall₂_map_right_iff, List.forall₂_same]
    exact fun p _ rest => printValue_reads p rest
  have hne : pulValues.zipIdx ≠ [] := by simpa using h
  have hparams := Reads.array (items_join hne hvalues ['}'])
  have hlast : Items ReadsMember '}' _ _ [] := .last spaces_nil
    (readsMember_plain (s := ['p', 'a', 'r', 'a', 'm', 's']) (by decide) hparams)
  have hall : Items ReadsMember '}' _ _ [] := .more spaces_nil
    (readsMember_plain (s := ['m', 'e', 't', 'h', 'o', 'd']) (by decide) (hmethod _)) hlast
  exact ⟨[], by simpa [deviceGetText, reply] using Reads.object hall, spaces_nil⟩

theorem length_decimal_le {z : Int} (hz : z.natAbs < 10 ^ 10) : (decimal 0 z).length ≤ 11 := by
  have hdigits := (Nat.length_toDigits_le_iff (b := 10) (by decide) (by decide : 0 < 10)).mpr hz
  rw [decimal]
  split
  · rw [List.length_cons, List.length_leftpad]
    omega
  · rw [List.length_leftpad]
    omega

theorem length_printValue {p : UInt32 × Nat} (hp : p.2 < 9) : (printValue p).length ≤ 38 := by
  have hid := length_decimal_le (z := (p.2 + 1 : Nat)) (by omega)
  have hlo := p.1.toInt32.le_toInt
  have hhi := p.1.toInt32.toInt_lt
  have hvalue := length_decimal_le (z := p.1.toInt32.toInt) (by omega)
  simp only [printValue, List.length_append, List.length_cons, List.length_nil]
  omega

theorem length_join {k : Nat} {l : List (List Char)} (h : ∀ t ∈ l, t.length ≤ k) :
    (join l).length ≤ l.length * (k + 1) := by
  induction l with
  | nil => exact Nat.zero_le _
  | cons t l ih =>
    have ht := h t List.mem_cons_self
    have hl := ih fun u hu => h u (List.mem_cons_of_mem t hu)
    rw [List.length_cons, Nat.succ_mul]
    cases l with
    | nil =>
      rw [join]
      omega
    | cons u l =>
      rw [join, List.length_append, List.length_cons]
      omega

theorem length_readValues (valueAt : Nat → Option UInt32) (n i : Nat) (pValue : UInt32) :
    (readValues valueAt n i pValue).length = n := by
  induction n generalizing i pValue with
  | zero => rfl
  | succ n ih => rw [readValues, List.length_cons, ih]

theorem length_deviceGetText (h : pulValues.length = 9) :
    (deviceGetText pulValues).length < buffSize := by
  have hall : ∀ t ∈ pulValues.zipIdx.map printValue, t.length ≤ 38 := by
    intro t ht
    obtain ⟨p, hp, rfl⟩ := List.mem_map.mp ht
    have hlt := List.snd_lt_of_mem_zipIdx hp
    exact length_printValue (by omega)
  have hjoin := length_join hall
  rw [List.length_map, List.length_zipIdx, h] at hjoin
  simp only [deviceGetText, List.length_append, List.length_cons, List.length_nil, buffSize]
  omega

theorem length_responseTopic (g : Gateway) : (responseTopic g.pMAC).length = 24 := by
  have hhex : ∀ mac : List UInt8, (mac.flatMap fun b => hex 2 b.toNat).length = 2 * mac.length := by
    intro mac
    induction mac with
    | nil => rfl
    | cons b mac ih =>
      have hb := b.toNat_lt
      have htwo : (hex 2 b.toNat).length = 2 := length_padded (by decide) (by decide) (by omega)
      rw [List.flatMap_cons, List.length_append, htwo, ih, List.length_cons]
      omega
  simp [responseTopic, hhex, g.pMAC.property]

/-- The texts always fit. -/
theorem deviceGet_cases (g : Gateway) : deviceGet g = some (retError, []) ∨
    deviceGet g = some (retOk,
      [.publish (responseTopic g.pMAC) (deviceGetText (readValues g.valueAt 9 0 0))]) := by
  rw [deviceGet]
  split_ifs with hobj hmem
  · exact .inl rfl
  · exact .inl rfl
  · have hvalues := length_readValues g.valueAt 9 0 0
    have htopic : (responseTopic g.pMAC).length < topicSize := by
      rw [length_responseTopic]
      decide
    exact .inr (if_pos ⟨length_deviceGetText hvalues, htopic⟩)

end Reply

section Lookup

variable {δ : Type} {d : Doubles δ} {round : ℚ → δ}

/-- A string as it is read up to its terminator. -/
def cut (s : List Char) : List Char := s.takeWhile (· ≠ '\x00')

/-- The first member of a name. -/
def member (name : List Char) : Json → Option Json
  | .object ms => (ms.find? fun m => cut m.1 = name).map Prod.snd
  | _ => none

theorem cString_encode (s : List Char) : cString (Utf8.encode s) = Utf8.encode (cut s) := by
  induction s with
  | nil => rfl
  | cons c s ih =>
    by_cases hc : c = '\x00'
    · subst hc
      rw [Utf8.encode_ascii (by decide), cString, List.takeWhile_cons_of_neg (by decide), cut,
        List.takeWhile_cons_of_neg (by decide)]
      rfl
    · have hbytes : 0 ∉ Utf8.encode [c] := encode_noNul (by simpa using Ne.symm hc)
      have hcons : Utf8.encode (c :: s) = Utf8.encode [c] ++ Utf8.encode s :=
        Utf8.encode_append [c] s
      have hcut : cut (c :: s) = c :: cut s := List.takeWhile_cons_of_pos (by simpa using hc)
      have hall : ∀ b ∈ Utf8.encode [c], (fun b : UInt8 => decide (b ≠ 0)) b = true :=
        fun b hb => decide_eq_true fun hzero => hbytes (hzero ▸ hb)
      rw [hcons, cString, List.takeWhile_append_of_pos hall, ← cString, ih, hcut]
      exact (Utf8.encode_append [c] (cut s)).symm

theorem encode_eq_ascii {name : List Char} (hname : ∀ c ∈ name, c.toNat < 128) {cs : List Char} :
    Utf8.encode cs = Utf8.encode name ↔ cs = name := by
  refine ⟨fun h => ?_, congrArg Utf8.encode⟩
  induction name generalizing cs with
  | nil =>
    have hle := length_le_encode cs
    rw [h] at hle
    exact List.eq_nil_of_length_eq_zero (Nat.le_zero.mp hle)
  | cons a name ih =>
    have ha := hname a List.mem_cons_self
    rw [Utf8.encode_ascii ha] at h
    cases cs with
    | nil => cases h
    | cons c cs =>
      by_cases hc : c.toNat < 128
      · rw [Utf8.encode_ascii hc] at h
        obtain ⟨hhead, htail⟩ := List.cons.inj h
        have hnat := congrArg UInt8.toNat hhead
        rw [Reader.toNat_toUInt8 hc, Reader.toNat_toUInt8 ha] at hnat
        rw [Char.toNat_inj.mp hnat, ih (fun b hb => hname b (List.mem_cons_of_mem a hb)) htail]
      · obtain ⟨b, bs, hb⟩ := List.exists_cons_of_ne_nil (l := String.utf8EncodeChar c) (by
          rw [Utf8.encodeChar_eq]
          split_ifs <;> simp)
        have hge := Utf8.encodeChar_ge (Nat.le_of_not_lt hc) b (by rw [hb]; exact List.mem_cons_self)
        rw [Utf8.encode_cons, hb] at h
        have hnat := congrArg UInt8.toNat (List.cons.inj h).1
        rw [Reader.toNat_toUInt8 ha] at hnat
        omega

theorem key_means {key : Option (List UInt8)} {tree : Node δ (List UInt8)} {j : Json}
    (h : Means d round key tree j) : (tree.map cString).key = key.map cString := by
  cases h <;> rfl

/-- `nx_json_get` in the tree of a value. -/
theorem get_means {name : List Char} (hname : ∀ c ∈ name, c.toNat < 128)
    {key : Option (List UInt8)} {tree : Node δ (List UInt8)} {j : Json} (h : Means d round key tree j) :
    (member name j = none ∧ get (tree.map cString) (Utf8.encode name) = dummy) ∨
      ∃ key' tree' j', member name j = some j' ∧ Means d round key' tree' j' ∧
        get (tree.map cString) (Utf8.encode name) = tree'.map cString := by
  cases h with
  | null => exact .inl ⟨rfl, rfl⟩
  | bool b => exact .inl ⟨rfl, rfl⟩
  | number h => exact .inl ⟨rfl, rfl⟩
  | string s => exact .inl ⟨rfl, rfl⟩
  | @array _ child items h =>
    refine .inl ⟨rfl, ?_⟩
    rw [Nxjson.get, Node.map, mapChild_eq, Node.child]
    induction h with
    | nil => rfl
    | @cons js j child items hjs _ ih =>
      have hkey : (js.map cString).key = none := key_means hjs
      rw [List.map_cons, List.find?_cons_of_neg (by simp [hkey])]
      exact ih
  | @object _ child members h =>
    rw [Nxjson.get, Node.map, mapChild_eq, Node.child]
    induction h with
    | nil => exact .inl ⟨rfl, rfl⟩
    | @cons js m child members hjs _ ih =>
      have hkey : (js.map cString).key = some (Utf8.encode (cut m.1)) := by
        rw [← cString_encode, key_means hjs, Option.map_some]
      rw [member, List.map_cons, List.find?_cons, List.find?_cons, hkey]
      by_cases hm : cut m.1 = name
      · refine .inr ⟨_, js, m.2, ?_, hjs, ?_⟩
        · simp [hm]
        · simp [hm]
      · have hne : Utf8.encode (cut m.1) ≠ Utf8.encode name := mt (encode_eq_ascii hname).mp hm
        rw [member] at ih
        simpa [hm, hne] using ih

theorem textValue_means {key : Option (List UInt8)} {tree : Node δ (List UInt8)} {j : Json}
    (h : Means d round key tree j) :
    textValue (tree.map cString) = none ↔ ¬ ∃ s, j = .string s := by
  cases h with
  | null => simp [textValue, Node.map, Node.type, Value.map]
  | bool b => simp [textValue, Node.map, Node.type, Value.map]
  | number h => cases h <;> simp [textValue, Node.map, Node.type, Value.map]
  | string s => simp [textValue, Node.map, Node.type, Value.map]
  | array h => simp [textValue, Node.map, Node.type, Value.map]
  | object h => simp [textValue, Node.map, Node.type, Value.map]

theorem dispatch_eq_none (g : Gateway) (pRoot : Node δ (List UInt8)) :
    dispatch g pRoot = none ↔ textValue (get pRoot (text "method")) = none := by
  rw [dispatch, Option.bind_eq_bind]
  cases htext : textValue (get pRoot (text "method")) with
  | none => simp
  | some s =>
    rw [Option.bind_some]
    cases methodGet s with
    | none => simp
    | some m =>
      cases m with
      | deviceGet =>
        obtain h | h := deviceGet_cases g <;> simp [Method.call, h]
      | deviceSet => simp [Method.call]
      | groupGet => simp [Method.call]
      | groupSet => simp [Method.call]

/-- For a request of JSON `strcmp` is called with `NULL` exactly when the method is not a string. -/
theorem processing_eq_none {range : ℚ → Prop} (hd : Rounds d round range) (g : Gateway)
    {cs : List Char} {j : Json} (h : Denotes cs j) (hrange : ¬ OutOfRange range cs) :
    processing d g cmdReq (Utf8.encode cs) false = none ↔
      ¬ ∃ s, member ['m', 'e', 't', 'h', 'o', 'd'] j = some (.string s) := by
  obtain ⟨js, mess, e', hparse, -, ⟨-, hout, -⟩ | ⟨-, -, node, tree, rfl, hmeans, hnode⟩⟩ :=
    parse_denotes hd h [] [] false
  · exact absurd (hout.resolve_left Bool.false_ne_true) hrange
  · rw [List.nil_append, List.length_nil] at hparse
    rw [processing, if_pos rfl, msgCreate, hparse, Option.bind_eq_bind, Option.bind_some]
    dsimp only
    rw [hnode, Option.bind_eq_bind]
    have hmethod : textValue (get (tree.map cString) (text "method")) = none ↔
        ¬ ∃ s, member ['m', 'e', 't', 'h', 'o', 'd'] j = some (.string s) := by
      obtain ⟨hnone, hget⟩ | ⟨k, tree', j', hj, hmeans', hget⟩ :=
        @get_means _ _ _ ['m', 'e', 't', 'h', 'o', 'd'] (by simp) _ _ _ hmeans
      · have hdummy : textValue (get (tree.map cString) (text "method")) = none := by
          rw [text, show "method".toList = ['m', 'e', 't', 'h', 'o', 'd'] from rfl, hget]
          rfl
        simp [hdummy, hnone]
      · rw [text, show "method".toList = ['m', 'e', 't', 'h', 'o', 'd'] from rfl, hget,
          textValue_means hmeans', hj]
        simp
    rw [← hmethod, ← dispatch_eq_none g]
    cases dispatch g (tree.map cString) <;> simp

/-- The method of the request is an array. -/
def listed : List Char :=
  ['\x7b', '"', 'm', 'e', 't', 'h', 'o', 'd', '"', ':', '[', '"', 'g', 'e', 't', '"', ']', '\x7d']

theorem processing_eq_none_listed :
    Denotes listed (.object [(['m', 'e', 't', 'h', 'o', 'd'], .array [.string ['g', 'e', 't']])]) ∧
    ¬ OutOfRange (fun _ => True) listed ∧
      (processing exact ⟨fun _ => true, fun _ => none, true, ⟨[0, 1, 2, 3, 4, 5], rfl⟩⟩ cmdReq
        (Utf8.encode listed) false = none ↔
          ¬ ∃ s, member ['m', 'e', 't', 'h', 'o', 'd']
            (.object [(['m', 'e', 't', 'h', 'o', 'd'], .array [.string ['g', 'e', 't']])]) =
              some (.string s)) := by
  have hitem : Reads ['"', 'g', 'e', 't', '"', ']', '\x7d'] (.string ['g', 'e', 't']) [']', '\x7d'] :=
    .string (chars_plain (s := ['g', 'e', 't']) (by decide) [']', '\x7d'])
  have hlast : Items ReadsMember '}' _ _ [] := .last spaces_nil
    (readsMember_plain (s := ['m', 'e', 't', 'h', 'o', 'd']) (by decide)
      (.array (.last spaces_nil hitem)))
  have hdenotes : Denotes listed _ := ⟨[], .object hlast, spaces_nil⟩
  have hrange : ¬ OutOfRange (fun _ => True) listed := by
    rintro ⟨p, ds, rest, x, hcs, -, hds, -, -⟩
    obtain ⟨c, ds', rfl, -, hstarts⟩ := numeral_head hds
    have hc : c ∈ listed := by simp [hcs]
    have hall : ∀ c ∈ listed, startsNumber c.toUInt8 ≠ true := Utf8.forall_mem_of_all (by decide)
    exact hall c hc hstarts
  exact ⟨hdenotes, hrange, processing_eq_none exact_rounds _ hdenotes hrange⟩

end Lookup

section Runs

variable {δ : Type}

theorem toNat_byte {i : Int64} (hlo : ¬ i < 0) (hhi : ¬ 255 < i) :
    (i.toUInt64.toUInt8.toNat : Int) = i.toInt ∧ i.toInt < 256 := by
  have hzero : (0 : Int64).toInt = 0 := rfl
  have hmax : (255 : Int64).toInt = 255 := rfl
  rw [Int64.lt_iff_toInt_lt, hzero] at hlo
  rw [Int64.lt_iff_toInt_lt, hmax] at hhi
  have hword : i.toInt = (i.toUInt64.toNat : Int).bmod (2 ^ 64) := BitVec.toInt_eq_toNat_bmod _
  have hlt := i.toUInt64.toNat_lt
  rw [Int.bmod_def] at hword
  rw [UInt64.toNat_toUInt8]
  omega

theorem toNat_pack {cmd level time : Int64} {a b c : Nat}
    (ha : cmd.toUInt64.toUInt8.toNat = a) (hb : level.toUInt64.toUInt8.toNat = b)
    (hc : time.toUInt64.toUInt8.toNat = c) :
    (pack cmd level time).toNat = a + 256 * b + 65536 * c := by
  have hlt : ∀ x : UInt8, x.toNat < 256 := fun x => x.toNat_lt
  have ha' := hlt cmd.toUInt64.toUInt8
  have hb' := hlt level.toUInt64.toUInt8
  have hc' := hlt time.toUInt64.toUInt8
  rw [ha] at ha'
  rw [hb] at hb'
  rw [hc] at hc'
  have hlow : a ||| b <<< 8 = b <<< 8 + a := by
    rw [Nat.shiftLeft_add_eq_or_of_lt (by omega) b, Nat.or_comm]
  have hall : (b <<< 8 + a) ||| c <<< 16 = c <<< 16 + (b <<< 8 + a) := by
    rw [Nat.shiftLeft_add_eq_or_of_lt (by rw [Nat.shiftLeft_eq]; omega) c, Nat.or_comm]
  have hshift8 : b <<< 8 % 2 ^ 32 = b <<< 8 := Nat.mod_eq_of_lt (by rw [Nat.shiftLeft_eq]; omega)
  have hshift16 : c <<< 16 % 2 ^ 32 = c <<< 16 := Nat.mod_eq_of_lt (by rw [Nat.shiftLeft_eq]; omega)
  have height : (8 : UInt32).toNat % 32 = 8 := rfl
  have hsixteen : (16 : UInt32).toNat % 32 = 16 := rfl
  rw [pack, UInt32.toNat_or, UInt32.toNat_or, UInt32.toNat_shiftLeft, UInt32.toNat_shiftLeft, height,
    hsixteen, UInt8.toNat_toUInt32, UInt8.toNat_toUInt32, UInt8.toNat_toUInt32, ha, hb, hc, hshift8,
    hshift16, hlow, hall, Nat.shiftLeft_eq, Nat.shiftLeft_eq]
  omega

/-- What is written to a lamp. -/
structure Command where
  id : Nat
  cmd : Nat
  level : Nat
  time : Nat
  id_pos : 1 ≤ id
  id_le : id ≤ 9
  cmd_lt : cmd < 256
  level_lt : level < 256
  time_lt : time < 256

/-- The words that stand for a command. -/
def Command.Writes (x : Command) (nID ulValue : UInt32) : Prop :=
  nID.toNat = 0x0a810900 + x.id ∧ ulValue.toNat = x.cmd + 256 * x.level + 65536 * x.time

theorem toNat_id {i : Int64} (hlo : ¬ i < 1) (hhi : ¬ 9 < i) :
    ((0x0a810900 + i).toUInt64.toUInt32.toNat : Int) = 0x0a810900 + i.toInt ∧
      1 ≤ i.toInt ∧ i.toInt ≤ 9 := by
  have hone : (1 : Int64).toInt = 1 := rfl
  have hnine : (9 : Int64).toInt = 9 := rfl
  rw [Int64.lt_iff_toInt_lt, hone] at hlo
  rw [Int64.lt_iff_toInt_lt, hnine] at hhi
  have hword : i.toInt = (i.toUInt64.toNat : Int).bmod (2 ^ 64) := BitVec.toInt_eq_toNat_bmod _
  have hlt := i.toUInt64.toNat_lt
  have hbase : (0x0a810900 : Int64).toUInt64.toNat = 0x0a810900 := rfl
  rw [Int.bmod_def] at hword
  rw [UInt64.toNat_toUInt32, Int64.toUInt64_add, UInt64.toNat_add, hbase]
  omega

/-- A command is what the members of its item are. -/
theorem command_writes {pItem : Node δ (List UInt8)} {nID ulValue : UInt32}
    (h : command pItem = some (nID, ulValue)) : ∃ x : Command, x.Writes nID ulValue ∧
      (x.id : Int) = (intValue (Nxjson.get pItem (text "id"))).toInt ∧
      (x.cmd : Int) = (intValue (Nxjson.get pItem (text "cmd"))).toInt ∧
      (x.level : Int) = (intValue (Nxjson.get pItem (text "level"))).toInt ∧
      (x.time : Int) = (intValue (Nxjson.get pItem (text "time"))).toInt := by
  rw [command] at h
  split_ifs at h with hnull hid hcmd hlevel htime
  obtain ⟨rfl, rfl⟩ := Prod.mk.inj (Option.some.inj h)
  rw [not_or] at hid hcmd hlevel htime
  obtain ⟨hnID, hpos, hle⟩ := toNat_id hid.1 hid.2
  obtain ⟨id, hid⟩ := Int.eq_ofNat_of_zero_le (Int.le_trans (by decide) hpos)
  have hnID' : (0x0a810900 + intValue (Nxjson.get pItem (text "id"))).toUInt64.toUInt32.toNat =
      0x0a810900 + id := by omega
  obtain ⟨hc, hc'⟩ := toNat_byte hcmd.1 hcmd.2
  obtain ⟨hl, hl'⟩ := toNat_byte hlevel.1 hlevel.2
  obtain ⟨ht, ht'⟩ := toNat_byte htime.1 htime.2
  exact ⟨⟨id, (intValue (Nxjson.get pItem (text "cmd"))).toUInt64.toUInt8.toNat,
    (intValue (Nxjson.get pItem (text "level"))).toUInt64.toUInt8.toNat,
    (intValue (Nxjson.get pItem (text "time"))).toUInt64.toUInt8.toNat, by omega, by omega,
    UInt8.toNat_lt _, UInt8.toNat_lt _, UInt8.toNat_lt _⟩, ⟨hnID', toNat_pack rfl rfl rfl⟩, hid.symm,
    hc, hl, ht⟩

/-- The calls of a request: a lamp is set by a command, and the broker is told of the values of the
nine lamps as the request finds them. -/
inductive Allowed (g : Gateway) : Call → Prop
  | setValue {nID ulValue : UInt32} (x : Command) (h : x.Writes nID ulValue) :
      Allowed g (.setValue nID ulValue)
  | publish {pTopic pBuff : List Char} (hbuff : Denotes pBuff (reply (readValues g.valueAt 9 0 0)))
      (hsize : pBuff.length < buffSize) (htopic : pTopic.length < topicSize) :
      Allowed g (.publish pTopic pBuff)

/-- The calls with `ERANGE` there: of a command there is nothing but booleans. -/
inductive Starved : Call → Prop
  | setValue {nID ulValue : UInt32} (x : Command) (h : x.Writes nID ulValue) (hid : x.id = 1)
      (hcmd : x.cmd ≤ 1) (hlevel : x.level ≤ 1) (htime : x.time ≤ 1) :
      Starved (.setValue nID ulValue)
  | publish (pTopic pBuff : List Char) : Starved (.publish pTopic pBuff)

/-- A property of the calls that holds when it holds of the answer and of the commands of the items. -/
theorem dispatch_calls {P : Call → Prop} {g : Gateway} {pRoot : Node δ (List UInt8)} {calls : List Call}
    (hpublish : P (.publish (responseTopic g.pMAC) (deviceGetText (readValues g.valueAt 9 0 0))))
    (hset : ∀ pItem ∈ (Nxjson.get pRoot (text "params")).child, ∀ nID ulValue,
      command pItem = some (nID, ulValue) → P (.setValue nID ulValue))
    (h : dispatch g pRoot = some calls) : ∀ c ∈ calls, P c := by
  have hitems : ∀ items : List (Node δ (List UInt8)), (∀ pItem ∈ items, ∀ nID ulValue,
      command pItem = some (nID, ulValue) → P (.setValue nID ulValue)) →
      ∀ c ∈ (setItems g.registered items).2, P c := by
    intro items
    induction items with
    | nil => simp [setItems]
    | cons pItem items ih =>
      intro hall
      have htail := ih fun i hi => hall i (List.mem_cons_of_mem pItem hi)
      rw [setItems]
      split_ifs
      · simp
      · cases hc : command pItem with
        | none => simp
        | some x =>
          have hx := hall pItem List.mem_cons_self x.1 x.2 hc
          dsimp only
          split_ifs
          · simpa using ⟨hx, htail⟩
          · exact htail
  rw [dispatch, Option.bind_eq_bind, Option.bind_eq_some_iff] at h
  obtain ⟨s, -, h⟩ := h
  cases hm : methodGet s with
  | none =>
    rw [hm] at h
    cases h
    simp
  | some m =>
    rw [hm] at h
    obtain ⟨⟨xRet, calls'⟩, hcall, hr⟩ := Option.bind_eq_some_iff.mp h
    cases hr
    cases m with
    | deviceGet =>
      obtain hget | hget := deviceGet_cases g
      · rw [Method.call, hget] at hcall
        cases hcall
        simp
      · rw [Method.call, hget] at hcall
        cases hcall
        simpa using hpublish
    | deviceSet =>
      obtain ⟨-, rfl⟩ := Prod.mk.inj (Option.some.inj hcall)
      exact hitems _ hset
    | groupGet =>
      cases hcall
      simp
    | groupSet =>
      cases hcall
      simp

theorem processing_calls {d : Doubles δ} {g : Gateway} {nCmd : UInt8} {pData : List UInt8} {e e' : Bool}
    {xRet : Ret} {calls : List Call} (h : processing d g nCmd pData e = some (xRet, calls, e')) :
    calls = [] ∨ ∃ js m, parse d true ⟨msgCreate pData, e⟩ 0 = some (some js, m) ∧
      dispatch g (js.map (CString.textAt m.buf)) = some calls := by
  rw [processing] at h
  split_ifs at h
  · obtain ⟨⟨_ | js, m⟩, hparse, h⟩ := Option.bind_eq_some_iff.mp h
    · cases h
      exact .inl rfl
    · obtain ⟨calls', hcalls, h⟩ := Option.bind_eq_some_iff.mp h
      cases h
      exact .inr ⟨js, m, hparse, hcalls⟩
  · cases h
    exact .inl rfl

theorem processing_allowed {d : Doubles δ} {g : Gateway} {nCmd : UInt8} {pData : List UInt8}
    {e e' : Bool} {xRet : Ret} {calls : List Call} (h : processing d g nCmd pData e = some (xRet, calls, e')) :
    ∀ c ∈ calls, Allowed g c := by
  obtain rfl | ⟨js, m, -, hcalls⟩ := processing_calls h
  · simp
  · refine dispatch_calls ?_ ?_ hcalls
    · have hnine := length_readValues g.valueAt 9 0 0
      have hne : readValues g.valueAt 9 0 0 ≠ [] := List.ne_nil_of_length_pos (by omega)
      have htopic : (responseTopic g.pMAC).length < topicSize := by
        rw [length_responseTopic]
        decide
      exact .publish (deviceGetText_denotes hne) (length_deviceGetText hnine) htopic
    · intro pItem _ nID ulValue hc
      obtain ⟨x, hx, -⟩ := command_writes hc
      exact .setValue x hx

theorem get_noNumbers {js : Node δ (List UInt8)} (h : NoNumbers js) (key : List UInt8) :
    NoNumbers (Nxjson.get js key) := by
  cases h with
  | mk _ hchild =>
    rw [Nxjson.get, Node.child]
    cases hfind : List.find? _ _ with
    | none => exact noNumbers_leaf .null
    | some js => exact hchild js (List.mem_of_find?_eq_some hfind)

theorem intValue_noNumbers {js : Node δ (List UInt8)} (h : NoNumbers js) :
    (intValue js).toInt = 0 ∨ (intValue js).toInt = 1 := by
  cases h with
  | mk htype _ => cases htype <;> simp [intValue, Node.type]

theorem processing_starved {d : Doubles δ} {g : Gateway} {nCmd : UInt8} {pData : List UInt8} {e' : Bool}
    {xRet : Ret} {calls : List Call} (h : processing d g nCmd pData true = some (xRet, calls, e')) :
    e' = true ∧ ∀ c ∈ calls, Starved c := by
  obtain ⟨js, m, hparse, hm, hnone⟩ :=
    parse_noNumbers d true (msgCreate pData) (by simp [msgCreate])
  refine ⟨?_, ?_⟩
  · rw [processing, hparse] at h
    split_ifs at h
    · rw [Option.bind_eq_bind, Option.bind_some] at h
      cases js with
      | none =>
        cases h
        exact hm
      | some js =>
        obtain ⟨calls', -, h⟩ := Option.bind_eq_some_iff.mp h
        cases h
        exact hm
    · cases h
      rfl
  · obtain rfl | ⟨js', m', hparse', hcalls⟩ := processing_calls h
    · simp
    · obtain ⟨rfl, rfl⟩ := Prod.mk.inj (Option.some.inj (hparse.symm.trans hparse'))
      have hroot := hnone js' rfl
      refine dispatch_calls (.publish _ _) ?_ hcalls
      intro pItem hitem nID ulValue hc
      have hparams := get_noNumbers hroot (text "params")
      have hnumbers : NoNumbers pItem := by
        generalize Nxjson.get _ (text "params") = pParams at hparams hitem
        cases hparams with
        | mk _ hchild => exact hchild pItem hitem
      obtain ⟨x, hx, hid, hcmd, hlevel, htime⟩ := command_writes hc
      have hvalue := fun key => intValue_noNumbers (get_noNumbers hnumbers key)
      have hid' := hvalue (text "id")
      have hcmd' := hvalue (text "cmd")
      have hlevel' := hvalue (text "level")
      have htime' := hvalue (text "time")
      have hpos := x.id_pos
      exact .setValue x hx (by omega) (by omega) (by omega) (by omega)

/-- A message of the pool, and the node as it is when the message is taken. -/
structure Received where
  g : Gateway
  nCmd : UInt8
  pData : List UInt8

/-- The task of `FTE_MQTT_receiver`. -/
structure Receiver where
  erange : Bool
  calls : List Call
  deriving DecidableEq

def step (d : Doubles δ) (s : Receiver) (x : Received) : Option Receiver :=
  (processing d x.g x.nCmd x.pData s.erange).map fun r => ⟨r.2.2, s.calls ++ r.2.1⟩

theorem step_calls {d : Doubles δ} {s t : Receiver} {x : Received} (h : step d s x = some t) :
    ∃ xRet calls, processing d x.g x.nCmd x.pData s.erange = some (xRet, calls, t.erange) ∧
      t.calls = s.calls ++ calls := by
  obtain ⟨⟨xRet, calls, e⟩, hr, rfl⟩ := Option.map_eq_some_iff.mp h
  exact ⟨xRet, calls, hr, rfl⟩

/-- Whatever messages come, each of them makes the lamps get commands only and the broker get JSON of
the values that it finds. -/
theorem run_allowed (d : Doubles δ) (xs : List Received) (e : Bool) {t : Receiver}
    (h : Runs.exec (step d) xs ⟨e, []⟩ = some t) : ∃ calls : List (List Call),
      t.calls = calls.flatten ∧ List.Forall₂ (fun x cs => ∀ c ∈ cs, Allowed x.g c) xs calls := by
  induction xs using List.reverseRecOn generalizing t with
  | nil =>
    cases h
    exact ⟨[], rfl, .nil⟩
  | append_singleton xs x ih =>
    rw [Runs.exec_concat] at h
    obtain ⟨s, hs, hstep⟩ := Option.bind_eq_some_iff.mp h
    obtain ⟨calls, hcalls, hall⟩ := ih hs
    obtain ⟨xRet, cs, hr, ht⟩ := step_calls hstep
    refine ⟨calls ++ [cs], ?_, List.rel_append hall (.cons (processing_allowed hr) .nil)⟩
    rw [ht, hcalls, List.flatten_concat]

/-- A node with its lamps, of which the second has no value. -/
def lamps : Gateway :=
  ⟨fun _ => true, fun i => if i = 1 then none else some (UInt32.ofNat i + 7), true,
    ⟨[0, 1, 2, 3, 4, 5], rfl⟩⟩

def getLamps : List UInt8 := text "\x7b\"method\":\"deviceGet\"\x7d"

def setLamp : List UInt8 := text
  "\x7b\"method\":\"deviceSet\",\"params\":[\x7b\"id\":9,\"cmd\":1,\"level\":2,\"time\":3\x7d]\x7d"

/-- A request for the values and a command. -/
def told : List Received := [⟨lamps, cmdReq, getLamps⟩, ⟨lamps, cmdReq, setLamp⟩]

theorem run_allowed_two : Runs.exec (step exact) told ⟨false, []⟩ =
      some ⟨false, [.publish (responseTopic [0, 1, 2, 3, 4, 5])
        (deviceGetText [7, 7, 9, 10, 11, 12, 13, 14, 15]), .setValue 0x0a810909 0x30201]⟩ ∧
    ∃ calls : List (List Call), [.publish (responseTopic [0, 1, 2, 3, 4, 5])
        (deviceGetText [7, 7, 9, 10, 11, 12, 13, 14, 15]), .setValue 0x0a810909 0x30201] =
        calls.flatten ∧ List.Forall₂ (fun x cs => ∀ c ∈ cs, Allowed x.g c) told calls := by
  have hrun : Runs.exec (step exact) told ⟨false, []⟩ =
      some ⟨false, [.publish (responseTopic [0, 1, 2, 3, 4, 5])
        (deviceGetText [7, 7, 9, 10, 11, 12, 13, 14, 15]), .setValue 0x0a810909 0x30201]⟩ := by
    decide +kernel
  exact ⟨hrun, run_allowed exact _ false hrun⟩

/-- After a number out of range no message sets a lamp any more, but the first one, with booleans. -/
theorem run_starved (d : Doubles δ) (xs : List Received) {s t : Receiver} (hs : s.erange = true)
    (h : Runs.exec (step d) xs s = some t) :
    t.erange = true ∧ ∃ calls, t.calls = s.calls ++ calls ∧ ∀ c ∈ calls, Starved c := by
  refine @Runs.inv_of_takes _ _ (step d)
    (fun u => u.erange = true ∧ ∃ calls, u.calls = s.calls ++ calls ∧ ∀ c ∈ calls, Starved c)
    (fun _ _ => True) _ _ _ ?_ ?_ (fun _ _ _ => trivial) ⟨xs, List.prefix_rfl, h⟩
  · exact ⟨hs, [], by simp⟩
  · rintro u x v ⟨hu, calls, hcalls, hall⟩ - hstep
    obtain ⟨xRet, calls', hr, hv⟩ := step_calls hstep
    rw [hu] at hr
    obtain ⟨he, hnew⟩ := processing_starved hr
    refine ⟨he, calls ++ calls', by rw [hv, hcalls, List.append_assoc], fun c hc => ?_⟩
    exact (List.mem_append.mp hc).elim (hall c) (hnew c)

theorem run_starved_one : Runs.exec (step exact) [⟨lamps, cmdReq, setLamp⟩] ⟨true, []⟩ =
      some ⟨true, []⟩ ∧
    true = true ∧ ∃ calls, [] = [] ++ calls ∧ ∀ c ∈ calls, Starved c := by
  have hrun : Runs.exec (step exact) [⟨lamps, cmdReq, setLamp⟩] ⟨true, []⟩ =
      some ⟨true, []⟩ := by decide +kernel
  exact ⟨hrun, run_starved exact _ rfl hrun⟩

end Runs

end EdgeNode.Mqtt.Requests
