import EdgeNode.Lib.ByteStuffing
import EdgeNode.Sys.CrcCcitt
import EdgeNode.Types
import Mathlib.Data.List.TakeWhile

/-! The frames of the SIOUX control unit: the requests of its task and the replies it accepts. -/

namespace EdgeNode.Obj.Cias

open ByteStuffing Sys

section Frames

/-- The control bytes, which are sent behind 0x10 with their high bit set. -/
def isControl (b : UInt8) : Bool := b = 0x01 ∨ b = 0x03 ∨ b = 0x10

/-- The request to the device of a zone. -/
def request (nDeviceNumber : UInt8) : List UInt8 :=
  let ulCRC := crcCcitt 0xFFFF [0x01]
  let device : List UInt8 :=
    if isControl nDeviceNumber then [0x10, nDeviceNumber + 0x80] else [nDeviceNumber]
  let ulCRC := crcCcitt ulCRC [nDeviceNumber]
  let ulCRC := crcCcitt ulCRC [0x50]
  let ulCRC := crcCcitt ulCRC [0xA3]
  let ulCRC := crcCcitt ulCRC [0x5B]
  let check : List UInt8 := [(ulCRC >>> 8).toUInt8, ulCRC.toUInt8]
  0x01 :: (device ++ [0x50, 0xA3, 0x5B] ++ check ++ [0x03])

/-- The loop over the received bytes: it waits for the start, takes bytes until there are twelve, waits
for an end, and takes bytes again. -/
def respond (pRespFrame : List UInt8) : List UInt8 → List UInt8
  | [] => pRespFrame
  | b :: bs =>
    if pRespFrame.length = 0 then
      if b = 0x01 then respond (pRespFrame ++ [b]) bs else respond pRespFrame bs
    else if pRespFrame.length = 12 then
      if b = 0x03 then respond (pRespFrame ++ [b]) bs else respond pRespFrame bs
    else if b = 0x10 then
      match bs with
      | [] => pRespFrame
      | x :: rest =>
        if x = 0x81 ∨ x = 0x83 ∨ x = 0x90 then respond (pRespFrame ++ [x - 0x80]) rest
        else respond pRespFrame (x :: rest)
    else respond (pRespFrame ++ [b]) bs

def respFrameSize : Nat := 13

/-- The check of the first nine bytes in the two behind them, the high byte first. -/
def Checked (frame : List UInt8) : Prop :=
  frame[9]? = some (crcCcitt 0xFFFF (frame.take 9) >>> 8).toUInt8 ∧
    frame[10]? = some (crcCcitt 0xFFFF (frame.take 9)).toUInt8

instance : DecidablePred Checked := fun _ => inferInstanceAs (Decidable (_ ∧ _))

/-- What the response buffer holds once the received bytes are through. -/
def received (pRecvBuff : List UInt8) : List UInt8 :=
  if pRecvBuff.length ≥ 12 then respond [] pRecvBuff else []

/-- The frame of a reply that the task accepts. -/
def accept (pRecvBuff : List UInt8) : Option (List UInt8) :=
  let pRespFrame := received pRecvBuff
  if pRespFrame.length = 12 ∧ Checked pRespFrame then some pRespFrame else none

end Frames

section Rule

/-- The stuffing of the control bytes. -/
def siouxCode : Code UInt8 where
  esc := 0x10
  encode b := if isControl b then some (b + 0x80) else none
  decode x := if x = 0x81 ∨ x = 0x83 ∨ x = 0x90 then some (x - 0x80) else none
  esc_reserved := by decide
  decode_encode := by
    intro x y h
    split at h
    next hx =>
      cases h
      rw [isControl, decide_eq_true_eq] at hx
      obtain rfl | rfl | rfl := hx
      · decide
      · decide
      · decide
    next => cases h

/-- The bytes from the first start on. -/
def fromStart (bs : List UInt8) : List UInt8 := bs.dropWhile (· ≠ 0x01)

/-- The bytes from the first end on. -/
def fromEnd (bs : List UInt8) : List UInt8 := bs.dropWhile (· ≠ 0x03)

/-- The frame with its marks of what was stuffed ends in an end that was not, and its check is
right. -/
def Ends (frame : List (UInt8 × Bool)) : Prop := frame[11]? = some (0x03, false)

instance : DecidablePred Ends := fun _ => inferInstanceAs (Decidable (_ = _))

/-- The received bytes begin with a reply, where a 0x10 that stands alone is a byte as any other. -/
def Reply (bs : List UInt8) : Prop :=
  ∃ frame, frame <+: siouxCode.unstuff true (fromStart bs) ∧ frame.length = 12 ∧ Ends frame ∧
    Checked (frame.map Prod.fst)

/-- Twelve bytes from the start on with what follows them, a lone 0x10 kept or dropped. -/
def reading (keep : Bool) (bs : List UInt8) : Option (List (UInt8 × Bool) × List UInt8) :=
  siouxCode.read keep 12 (fromStart bs)

/-- Bytes are written behind the thirteen of the buffer. -/
def Overruns (bs : List UInt8) : Prop :=
  ∃ frame rest, reading false bs = some (frame, rest) ∧ ∃ b ∈ (fromEnd rest).tail, b ≠ 0x10

/-- The twelve bytes that are left when every lone 0x10 is dropped have a right check, and no end is
behind them. -/
def Passes (bs : List UInt8) : Prop :=
  ∃ frame rest, reading false bs = some (frame, rest) ∧ Checked (frame.map Prod.fst) ∧ 0x03 ∉ rest

/-- Where no 0x10 stands alone, an end in the frame and one behind it exclude each other; where one
does, the frame with it and that without it are right together. -/
def Accord (bs : List UInt8) : Prop :=
  ∀ frame rest, reading true bs = some (frame, rest) →
    if (0x10, false) ∈ frame then Passes bs ↔ Ends frame ∧ Checked (frame.map Prod.fst)
    else Checked (frame.map Prod.fst) → (0x03 ∉ rest ↔ Ends frame)

/-- What is between the start and the end of a request. -/
def body (nDeviceNumber : UInt8) : List UInt8 :=
  let head : List UInt8 := [nDeviceNumber, 0x50, 0xA3, 0x5B]
  let ulCRC := crcCcitt 0xFFFF (0x01 :: head)
  head ++ [(ulCRC >>> 8).toUInt8, ulCRC.toUInt8]

/-- The check of a request has no control byte. -/
def Plain (nDeviceNumber : UInt8) : Prop := ∀ b ∈ (body nDeviceNumber).drop 4, isControl b = false

instance : DecidablePred Plain := fun _ => inferInstanceAs (Decidable (∀ _ ∈ _, _))

/-- The frames in both directions are those of the rule. -/
structure Codec (bs : List UInt8) (nDeviceNumber : UInt8) : Prop where
  inside : (received bs).length ≤ respFrameSize
  accepts : (accept bs).isSome ↔ Reply bs
  stuffed : request nDeviceNumber = 0x01 :: (siouxCode.stuff (body nDeviceNumber) ++ [0x03])
  recovers : siouxCode.unstuff true (request nDeviceNumber) =
    (0x01, false) :: (body nDeviceNumber).map (fun b => (b, isControl b)) ++ [(0x03, false)]

end Rule

section Respond

theorem respond_cons {frame : List UInt8} (h0 : frame.length ≠ 0) (h12 : frame.length ≠ 12)
    {b : UInt8} (hb : b ≠ 0x10) (bs : List UInt8) :
    respond frame (b :: bs) = respond (frame ++ [b]) bs := by
  rw [respond.eq_def]
  dsimp only
  rw [if_neg h0, if_neg h12, if_neg hb]

/-- Between the start and the end a turn of the loop takes the next byte that is not dropped. -/
theorem respond_next {frame : List UInt8} (h0 : frame.length ≠ 0) (h12 : frame.length ≠ 12)
    (bs : List UInt8) : respond frame bs =
      match siouxCode.next false bs with
      | none => frame
      | some (s, rest) => respond (frame ++ [s.1]) rest := by
  match bs with
  | [] => rfl
  | [b] =>
    by_cases hb : b = 0x10
    · subst hb
      rw [respond.eq_def]
      dsimp only
      rw [if_neg h0, if_neg h12, if_pos rfl]
      rfl
    · have hnext : siouxCode.next false [b] = some ((b, false), []) := if_neg fun h => hb h.1
      rw [respond_cons h0 h12 hb, hnext]
  | b :: x :: bs =>
    by_cases hb : b = 0x10
    · subst hb
      rw [respond.eq_def]
      dsimp only
      have hesc : (0x10 : UInt8) = siouxCode.esc := rfl
      rw [if_neg h0, if_neg h12, if_pos rfl, Code.next, if_pos hesc]
      by_cases hx : x = 0x81 ∨ x = 0x83 ∨ x = 0x90
      · have hdecode : siouxCode.decode x = some (x - 0x80) := if_pos hx
        rw [if_pos hx, hdecode]
      · have hdecode : siouxCode.decode x = none := if_neg hx
        rw [if_neg hx, hdecode, respond_next h0 h12 (x :: bs)]
        rfl
    · have hnext : siouxCode.next false (b :: x :: bs) = some ((b, false), x :: bs) := if_neg hb
      rw [respond_cons h0 h12 hb, hnext]

/-- The bytes up to the twelfth. -/
theorem respond_read {n : Nat} {frame : List UInt8} (h0 : frame.length ≠ 0)
    (hn : frame.length + n = 12) (bs : List UInt8) : match siouxCode.read false n bs with
      | none => (respond frame bs).length < 12
      | some (items, rest) => respond frame bs = respond (frame ++ items.map Prod.fst) rest := by
  induction n generalizing frame bs with
  | zero =>
    show respond frame bs = respond (frame ++ []) bs
    rw [List.append_nil]
  | succ n ih =>
    have h12 : frame.length ≠ 12 := by omega
    rw [respond_next h0 h12, Code.read]
    cases siouxCode.next false bs with
    | none =>
      show frame.length < 12
      omega
    | some r =>
      obtain ⟨s, rest⟩ := r
      have hlen : (frame ++ [s.1]).length = frame.length + 1 := List.length_append
      have hrest := @ih (frame ++ [s.1]) (by omega) (by omega) rest
      rw [Option.bind_eq_bind, Option.bind_some]
      dsimp only
      cases hr : siouxCode.read false n rest with
      | none =>
        rw [hr] at hrest
        exact hrest
      | some t =>
        rw [hr] at hrest
        dsimp only at hrest
        rw [List.append_assoc] at hrest
        exact hrest

/-- Behind the end bytes are taken again. -/
theorem respond_full {frame : List UInt8} (h : 12 < frame.length) (bs : List UInt8) :
    respond frame bs = frame ++ (siouxCode.unstuff false bs).map Prod.fst := by
  have h0 : frame.length ≠ 0 := by omega
  have h12 : frame.length ≠ 12 := by omega
  rw [respond_next h0 h12, unstuff_next]
  match hs : siouxCode.next false bs with
  | none => exact (List.append_nil frame).symm
  | some (s, rest) =>
    have hlt := next_length hs
    have hlen : (frame ++ [s.1]).length = frame.length + 1 := List.length_append
    dsimp only
    rw [respond_full (by omega) rest, List.append_assoc]
    rfl
  termination_by bs.length

/-- At twelve bytes the loop waits for an end. -/
theorem respond_twelve {frame : List UInt8} (h : frame.length = 12) (bs : List UInt8) :
    respond frame bs = match fromEnd bs with
      | [] => frame
      | _ :: post => frame ++ [0x03] ++ (siouxCode.unstuff false post).map Prod.fst := by
  have h0 : frame.length ≠ 0 := by omega
  have hlen : (frame ++ [0x03]).length = frame.length + 1 := List.length_append
  induction bs with
  | nil => rfl
  | cons b bs ih =>
    rw [respond.eq_def]
    dsimp only
    rw [if_neg h0, if_pos h]
    by_cases hb : b = 0x03
    · subst hb
      rw [if_pos rfl]
      exact respond_full (by omega) bs
    · have hdrop : fromEnd (b :: bs) = fromEnd bs :=
        List.dropWhile_cons_of_pos (decide_eq_true hb)
      rw [if_neg hb, hdrop, ih]

/-- The bytes before the first start are passed over. -/
theorem respond_start (bs : List UInt8) : respond [] bs =
    match fromStart bs with
    | [] => []
    | _ :: rest => respond [0x01] rest := by
  induction bs with
  | nil => rfl
  | cons b bs ih =>
    rw [respond.eq_def]
    dsimp only
    rw [if_pos List.length_nil]
    by_cases hb : b = 0x01
    · subst hb
      rw [if_pos rfl]
      rfl
    · have hdrop : fromStart (b :: bs) = fromStart bs :=
        List.dropWhile_cons_of_pos (decide_eq_true hb)
      rw [if_neg hb, hdrop, ih]

theorem fromStart_cases (bs : List UInt8) :
    fromStart bs = [] ∨ ∃ rest, fromStart bs = 0x01 :: rest := by
  have hhead := List.head?_dropWhile_not (fun b : UInt8 => decide (b ≠ 0x01)) bs
  cases hstart : fromStart bs with
  | nil => exact Or.inl rfl
  | cons b rest =>
    have hdrop : List.dropWhile (fun b : UInt8 => decide (b ≠ 0x01)) bs = b :: rest := hstart
    rw [hdrop] at hhead
    have hb : b = 0x01 := of_not_not (of_decide_eq_false hhead)
    exact Or.inr ⟨rest, by rw [hb]⟩

/-- What the buffer holds once twelve bytes are there and the rest is through. -/
theorem received_eq (bs : List UInt8) : match reading false bs with
    | none => (received bs).length < 12
    | some (frame, rest) => received bs = respond (frame.map Prod.fst) rest := by
  have hlen : (fromStart bs).length ≤ bs.length := (List.dropWhile_sublist _).length_le
  by_cases hshort : bs.length < 12
  · have hnil : received bs = [] := if_neg (Nat.not_le_of_lt hshort)
    cases hr : reading false bs with
    | none =>
      show (received bs).length < 12
      rw [hnil]
      exact Nat.succ_pos 11
    | some r =>
      obtain ⟨-, -, hle⟩ := read_eq_some hr
      omega
  · have hrecv : received bs = respond [] bs := if_pos (Nat.le_of_not_lt hshort)
    rw [hrecv, respond_start]
    obtain hstart | ⟨rest, hstart⟩ := fromStart_cases bs
    · rw [reading, hstart]
      exact Nat.succ_pos 11
    · have hne : (0x01 : UInt8) ≠ siouxCode.esc := by decide
      have hread := @respond_read 11 [0x01] (Nat.succ_ne_zero 0) rfl rest
      rw [reading, hstart, Code.read, next_cons hne, Option.bind_eq_bind, Option.bind_some]
      dsimp only
      cases hr : siouxCode.read false 11 rest with
      | none =>
        rw [hr] at hread
        exact hread
      | some r =>
        rw [hr] at hread
        exact hread

end Respond

section Codec

theorem reading_length {keep : Bool} {bs rest : List UInt8} {frame : List (UInt8 × Bool)}
    (h : reading keep bs = some (frame, rest)) : (frame.map Prod.fst).length = 12 := by
  rw [List.length_map]
  exact (read_eq_some h).1

theorem exists_reading {keep : Bool} {bs rest : List UInt8} {frame : List (UInt8 × Bool)}
    (h : reading keep bs = some (frame, rest)) (P : List (UInt8 × Bool) → List UInt8 → Prop) :
    (∃ frame rest, reading keep bs = some (frame, rest) ∧ P frame rest) ↔ P frame rest := by
  constructor
  · rintro ⟨frame', rest', hread, hP⟩
    rw [h] at hread
    cases hread
    exact hP
  · exact fun hP => ⟨frame, rest, h, hP⟩

theorem not_exists_reading {keep : Bool} {bs : List UInt8} (h : reading keep bs = none)
    (P : List (UInt8 × Bool) → List UInt8 → Prop) :
    ¬ ∃ frame rest, reading keep bs = some (frame, rest) ∧ P frame rest := by
  rintro ⟨frame, rest, hread, -⟩
  rw [h] at hread
  cases hread

theorem fromEnd_eq_nil (bs : List UInt8) : fromEnd bs = [] ↔ 0x03 ∉ bs := by
  rw [fromEnd, List.dropWhile_eq_nil_iff]
  constructor
  · exact fun h hm => absurd rfl (of_decide_eq_true (h 0x03 hm))
  · exact fun h b hb => decide_eq_true fun he => h (he ▸ hb)

/-- Only a byte behind an end that comes after the twelfth is written behind the buffer. -/
theorem inside_iff (bs : List UInt8) :
    (received bs).length ≤ respFrameSize ↔ ¬ Overruns bs := by
  have hrecv := received_eq bs
  have hesc : siouxCode.decode siouxCode.esc = none := by decide
  cases hr : reading false bs with
  | none =>
    rw [hr] at hrecv
    exact iff_of_true (Nat.le_of_lt (Nat.lt_succ_of_lt hrecv)) (not_exists_reading hr _)
  | some r =>
    obtain ⟨frame, rest⟩ := r
    have hlen := reading_length hr
    have hover : Overruns bs ↔ ∃ b ∈ (fromEnd rest).tail, b ≠ 0x10 := exists_reading hr _
    rw [hr] at hrecv
    dsimp only at hrecv
    rw [hrecv, respond_twelve hlen, respFrameSize, hover]
    cases fromEnd rest with
    | nil =>
      apply iff_of_true
      · exact (Nat.le_of_eq hlen).trans (Nat.le_succ 12)
      · rintro ⟨b, hb, -⟩
        cases hb
    | cons b post =>
      have hnil : (siouxCode.unstuff false post).length = 0 ↔ ∀ b ∈ post, b = 0x10 :=
        List.length_eq_zero_iff.trans (unstuff_eq_nil hesc post)
      have hsum : ((frame.map Prod.fst) ++ [0x03] ++
          (siouxCode.unstuff false post).map Prod.fst).length =
            13 + (siouxCode.unstuff false post).length := by
        rw [List.length_append, List.length_append, hlen, List.length_map]
        rfl
      dsimp only
      rw [hsum, List.tail_cons]
      push Not
      rw [← hnil]
      omega

/-- A reply is accepted exactly if twelve bytes with a right check are left when each lone 0x10 is
dropped, and no end is behind them. -/
theorem accept_isSome_iff (bs : List UInt8) : (accept bs).isSome ↔ Passes bs := by
  have hrecv := received_eq bs
  have hsome : (accept bs).isSome ↔ (received bs).length = 12 ∧ Checked (received bs) := by
    by_cases h : (received bs).length = 12 ∧ Checked (received bs)
    · have haccept : accept bs = some (received bs) := if_pos h
      rw [haccept]
      exact iff_of_true rfl h
    · have haccept : accept bs = none := if_neg h
      rw [haccept]
      exact iff_of_false Bool.false_ne_true h
  rw [hsome]
  cases hr : reading false bs with
  | none =>
    rw [hr] at hrecv
    exact iff_of_false (fun h => Nat.ne_of_lt hrecv h.1) (not_exists_reading hr _)
  | some r =>
    obtain ⟨frame, rest⟩ := r
    have hlen := reading_length hr
    have hpasses : Passes bs ↔ Checked (frame.map Prod.fst) ∧ 0x03 ∉ rest := exists_reading hr _
    rw [hr] at hrecv
    dsimp only at hrecv
    rw [hrecv, respond_twelve hlen, hpasses, ← fromEnd_eq_nil]
    cases fromEnd rest with
    | nil => exact ⟨fun h => ⟨h.2, rfl⟩, fun h => ⟨hlen, h.1⟩⟩
    | cons b post =>
      apply iff_of_false
      · rintro ⟨hfull, -⟩
        rw [List.length_append, List.length_append, hlen, List.length_singleton] at hfull
        omega
      · rintro ⟨-, hnil⟩
        cases hnil

theorem reply_iff (bs : List UInt8) : Reply bs ↔ ∃ frame rest,
    reading true bs = some (frame, rest) ∧ Ends frame ∧ Checked (frame.map Prod.fst) := by
  constructor
  · rintro ⟨frame, hprefix, hlen, hends, hcheck⟩
    cases hr : reading true bs with
    | none =>
      have hlt := read_eq_none hr
      have hle := hprefix.length_le
      omega
    | some r =>
      obtain ⟨items, rest⟩ := r
      obtain ⟨hitems, hstuffed, -⟩ := read_eq_some hr
      have hframe : frame = items := by
        rw [hstuffed] at hprefix
        rw [List.prefix_iff_eq_take.mp hprefix, hlen, ← hitems, List.take_left]
      exact ⟨items, rest, rfl, hframe ▸ hends, hframe ▸ hcheck⟩
  · rintro ⟨frame, rest, hread, hends, hcheck⟩
    obtain ⟨hlen, hstuffed, -⟩ := read_eq_some hread
    exact ⟨frame, hstuffed ▸ List.prefix_append _ _, hlen, hends, hcheck⟩

theorem accord_iff (bs : List UInt8) : (Passes bs ↔ Reply bs) ↔ Accord bs := by
  rw [reply_iff]
  cases hr : reading true bs with
  | none =>
    have hdrop : reading false bs = none := read_drop_none hr
    apply iff_of_true
    · exact iff_of_false (not_exists_reading hdrop _) (hr ▸ not_exists_reading hr _)
    · intro frame rest hread
      rw [hr] at hread
      cases hread
  | some r =>
    obtain ⟨frame, rest⟩ := r
    have haccord : Accord bs ↔
        if (0x10, false) ∈ frame then Passes bs ↔ Ends frame ∧ Checked (frame.map Prod.fst)
        else Checked (frame.map Prod.fst) → (0x03 ∉ rest ↔ Ends frame) := by
      constructor
      · exact fun h => h frame rest hr
      · intro h frame' rest' hread
        rw [hr] at hread
        cases hread
        exact h
    rw [← hr, exists_reading hr, haccord]
    by_cases hlone : (0x10, false) ∈ frame
    · rw [if_pos hlone]
    · have hdrop : reading false bs = some (frame, rest) := read_drop hr hlone
      have hpasses : Passes bs ↔ Checked (frame.map Prod.fst) ∧ 0x03 ∉ rest :=
        exists_reading hdrop _
      rw [if_neg hlone, hpasses]
      tauto

theorem encode_isSome (b : UInt8) : (siouxCode.encode b).isSome = isControl b := by
  rw [siouxCode]
  dsimp only
  cases isControl b with
  | true => rfl
  | false => rfl

theorem encode_eq_none (b : UInt8) : siouxCode.encode b = none ↔ isControl b = false := by
  rw [← encode_isSome, Option.isSome_eq_false_iff, Option.isNone_iff_eq_none]

/-- Only the device number is sent stuffed, the check as it is. -/
theorem request_eq (nDeviceNumber : UInt8) : request nDeviceNumber = 0x01 ::
    (siouxCode.stuff ((body nDeviceNumber).take 4) ++ (body nDeviceNumber).drop 4 ++ [0x03]) := by
  have hstuff : siouxCode.stuff ((body nDeviceNumber).take 4) =
      siouxCode.stuffOne nDeviceNumber ++ [0x50, 0xA3, 0x5B] := by
    rw [← show siouxCode.stuff [0x50, 0xA3, 0x5B] = [0x50, 0xA3, 0x5B] by decide, ← stuff_cons]
    rfl
  have hone : siouxCode.stuffOne nDeviceNumber = if isControl nDeviceNumber then
      [0x10, nDeviceNumber + 0x80] else [nDeviceNumber] := by
    rw [Code.stuffOne, siouxCode]
    dsimp only
    cases isControl nDeviceNumber with
    | true => rfl
    | false => rfl
  rw [hstuff, hone]
  rfl

theorem stuffed_iff (nDeviceNumber : UInt8) : request nDeviceNumber =
    0x01 :: (siouxCode.stuff (body nDeviceNumber) ++ [0x03]) ↔ Plain nDeviceNumber := by
  have hbody : siouxCode.stuff (body nDeviceNumber) = siouxCode.stuff ((body nDeviceNumber).take 4) ++
      siouxCode.stuff ((body nDeviceNumber).drop 4) := by
    rw [← stuff_append, List.take_append_drop]
  have hplain : Plain nDeviceNumber ↔
      siouxCode.stuff ((body nDeviceNumber).drop 4) = (body nDeviceNumber).drop 4 := by
    rw [stuff_eq_self, Plain]
    simp only [encode_eq_none]
  rw [hplain, hbody, request_eq, List.cons_inj_right, List.append_left_inj, List.append_right_inj]
  exact eq_comm

theorem recovers_of_stuffed {nDeviceNumber : UInt8}
    (h : request nDeviceNumber = 0x01 :: (siouxCode.stuff (body nDeviceNumber) ++ [0x03])) :
    siouxCode.unstuff true (request nDeviceNumber) =
      (0x01, false) :: (body nDeviceNumber).map (fun b => (b, isControl b)) ++ [(0x03, false)] := by
  have hne : (0x01 : UInt8) ≠ siouxCode.esc := by decide
  rw [h, unstuff_cons hne, unstuff_stuff]
  simp only [encode_isSome]
  rfl

/-- The frames are those of the rule exactly if no byte comes behind an end after the twelfth, the
replies accord, and the check of the request has no control byte. -/
theorem codec_iff (bs : List UInt8) (nDeviceNumber : UInt8) :
    Codec bs nDeviceNumber ↔ ¬ Overruns bs ∧ Accord bs ∧ Plain nDeviceNumber := by
  rw [← inside_iff, ← accord_iff, ← accept_isSome_iff, ← stuffed_iff]
  constructor
  · exact fun h => ⟨h.inside, h.accepts, h.stuffed⟩
  · exact fun h => ⟨h.1, h.2.1, h.2.2, recovers_of_stuffed h.2.2⟩

/-- A byte behind the end, which is the thirteenth, is written behind the buffer. -/
theorem byte_behind_end :
    ¬ Codec [0x01, 0, 0, 0, 0, 0, 0, 0, 0, 0, 0, 0, 0x03, 0] 0x07 := by
  intro h
  have hlen : ¬ (received [0x01, 0, 0, 0, 0, 0, 0, 0, 0, 0, 0, 0, 0x03, 0]).length ≤
    respFrameSize := by decide
  exact hlen h.inside

-- A frame without its end is accepted, and the check of the request to device 29 has a 0x10.
example : (accept [1, 7, 80, 68, 0, 0, 100, 0, 0, 245, 196, 0x83]).isSome := by decide

example : ¬ Plain 29 := by decide

end Codec

end EdgeNode.Obj.Cias
