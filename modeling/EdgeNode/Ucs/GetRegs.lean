import EdgeNode.Sys.Crc16
import EdgeNode.Ucs.Operations
import Mathlib.Data.List.Find
import Mathlib.Data.List.GetD

/-! `FTE_UCS_MODBUS_getRegs` on what was received: the search for a whole frame in it. -/

namespace EdgeNode.Ucs

open LockRuns Sys

section Search

variable (ucDeviceID nCount : UInt8)

def validRespFrameLen : Nat := 5 + 2 * nCount.toNat

/-- The two bytes at `i` as the little-endian word that the processor reads. -/
def wordAt (pRecvBuff : List UInt8) (i : Nat) : Option UInt16 := do
  let lo ← pRecvBuff[i]?
  let hi ← pRecvBuff[i + 1]?
  some (UInt16.ofNat (lo.toNat + 256 * hi.toNat))

/-- The bytes from `i` on that `FTE_CRC16` reads. -/
def bytesAt (pRecvBuff : List UInt8) (i k : Nat) : Option (List UInt8) :=
  if i + k ≤ pRecvBuff.length then some ((pRecvBuff.drop i).take k) else none

/-- The tests of a turn of the search, each only where the ones before it hold; none where a byte is
read that was not received. -/
def frameAt (pRecvBuff : List UInt8) (i : Nat) : Option Bool := do
  if (← pRecvBuff[i]?) ≠ ucDeviceID then return false
  if (← pRecvBuff[i + 1]?) ≠ 0x03 then return false
  if (← pRecvBuff[i + 2]?).toNat ≠ nCount.toNat * 2 then return false
  let uiCRC := crc16 (← bytesAt pRecvBuff i (validRespFrameLen nCount - 2))
  return uiCRC = (← wordAt pRecvBuff (i + validRespFrameLen nCount - 2))

/-- The loop from `i` on, with `turns` turns to go. -/
def searchFrom (pRecvBuff : List UInt8) (i : Nat) : Nat → Option (Option Nat)
  | 0 => some none
  | turns + 1 => do
    if ← frameAt ucDeviceID nCount pRecvBuff i then return some i
    searchFrom pRecvBuff (i + 1) turns

/-- The registers at `i` and behind, `count` of them. -/
def regsFrom (pRecvBuff : List UInt8) (i : Nat) : Nat → Option (List UInt16)
  | 0 => some []
  | count + 1 => do
    let hi ← pRecvBuff[i]?
    let lo ← pRecvBuff[i + 1]?
    return ntohs hi lo :: (← regsFrom pRecvBuff (i + 2) count)

/-- What `FTE_UCS_MODBUS_getRegs` returns and leaves in `pRegs` for the bytes received. -/
def regsOf (pRecvBuff : List UInt8) : Option (Ret × List UInt16) :=
  if pRecvBuff.length < validRespFrameLen nCount then some (retError, [])
  else do
    match ← searchFrom ucDeviceID nCount pRecvBuff 0
        (pRecvBuff.length - validRespFrameLen nCount + 1) with
    | none => return (retError, [])
    | some pRecvFrame => return (retOk, ← regsFrom pRecvBuff (pRecvFrame + 3) nCount.toNat)

end Search

section Frames

/-- The words of a big-endian sequence of bytes. -/
def wordsOf : List UInt8 → List UInt16
  | hi :: lo :: data => ntohs hi lo :: wordsOf data
  | _ => []

/-- A complete response: the device, the function, the number of bytes, the data, and the check of
all these with its low byte first. -/
def IsResponse (ucDeviceID nCount : UInt8) (data frame : List UInt8) : Prop :=
  ∃ byteCount crcLo crcHi : UInt8, byteCount.toNat = 2 * nCount.toNat ∧
    data.length = 2 * nCount.toNat ∧
    frame = [ucDeviceID, 0x03, byteCount] ++ data ++ [crcLo, crcHi] ∧
    (crcHi.toBitVec ++ crcLo.toBitVec : BitVec 16) = modbusCrc ([ucDeviceID, 0x03, byteCount] ++ data)

/-- A complete response with these data stands at `offset`. -/
def ResponseAt (ucDeviceID nCount : UInt8) (pRecvBuff : List UInt8) (offset : Nat)
    (data : List UInt8) : Prop :=
  ∃ before frame behind, pRecvBuff = before ++ frame ++ behind ∧ before.length = offset ∧
    IsResponse ucDeviceID nCount data frame

end Frames

section Positions

variable {ucDeviceID nCount : UInt8} {pRecvBuff : List UInt8} {i : Nat}

/-- A place with room for a response, and the bytes there. -/
structure Room (nCount : UInt8) (pRecvBuff : List UInt8) (i : Nat) where
  id : UInt8
  function : UInt8
  byteCount : UInt8
  data : List UInt8
  crcLo : UInt8
  crcHi : UInt8
  before : List UInt8
  behind : List UInt8
  data_length : data.length = 2 * nCount.toNat
  before_length : before.length = i
  eq : pRecvBuff = before ++ ([id, function, byteCount] ++ data ++ [crcLo, crcHi]) ++ behind

theorem room_of_le (h : i + validRespFrameLen nCount ≤ pRecvBuff.length) :
    Nonempty (Room nCount pRecvBuff i) := by
  rw [validRespFrameLen] at h
  have hlen : (pRecvBuff.drop i).length = pRecvBuff.length - i := List.length_drop
  rcases hrest : pRecvBuff.drop i with _ | ⟨id, _ | ⟨function, _ | ⟨byteCount, rest⟩⟩⟩
  · simp [hrest] at hlen; omega
  · simp [hrest] at hlen; omega
  · simp [hrest] at hlen; omega
  · have hrl : rest.length = pRecvBuff.length - i - 3 := by
      rw [hrest] at hlen
      simp only [List.length_cons] at hlen
      omega
    have hdl : (rest.drop (2 * nCount.toNat)).length = rest.length - 2 * nCount.toNat :=
      List.length_drop
    rcases htail : rest.drop (2 * nCount.toNat) with _ | ⟨crcLo, _ | ⟨crcHi, behind⟩⟩
    · simp [htail] at hdl; omega
    · simp [htail] at hdl; omega
    · refine ⟨⟨id, function, byteCount, rest.take (2 * nCount.toNat), crcLo, crcHi,
        pRecvBuff.take i, behind, ?_, ?_, ?_⟩⟩
      · rw [List.length_take]
        omega
      · rw [List.length_take]
        omega
      · have hsplit := List.take_append_drop (2 * nCount.toNat) rest
        rw [htail] at hsplit
        rw [List.append_assoc]
        conv_lhs => rw [← List.take_append_drop i pRecvBuff, hrest, ← hsplit]
        simp

theorem word_eq (crcLo crcHi : UInt8) :
    (UInt16.ofNat (crcLo.toNat + 256 * crcHi.toNat)).toBitVec =
      (crcHi.toBitVec ++ crcLo.toBitVec : BitVec 16) := by
  have hlo : crcLo.toBitVec.toNat < 2 ^ 8 := crcLo.toBitVec.isLt
  have hhi : crcHi.toBitVec.toNat < 2 ^ 8 := crcHi.toBitVec.isLt
  apply BitVec.eq_of_toNat_eq
  rw [BitVec.toNat_append, ← Nat.shiftLeft_add_eq_or_of_lt hlo, Nat.shiftLeft_eq]
  change (crcLo.toNat + 256 * crcHi.toNat) % 2 ^ 16 = _
  rw [UInt8.toNat_toBitVec, UInt8.toNat_toBitVec] at *
  omega

namespace Room

variable (r : Room nCount pRecvBuff i)

/-- The bytes there are a response of the device. -/
def Valid (ucDeviceID : UInt8) : Prop :=
  r.id = ucDeviceID ∧ r.function = 0x03 ∧ r.byteCount.toNat = nCount.toNat * 2 ∧
    crc16 ([r.id, r.function, r.byteCount] ++ r.data) =
      UInt16.ofNat (r.crcLo.toNat + 256 * r.crcHi.toNat)

instance (ucDeviceID : UInt8) : Decidable (r.Valid ucDeviceID) := by
  unfold Valid
  infer_instance

theorem getElem? (k : Nat) (hk : k < validRespFrameLen nCount) : pRecvBuff[i + k]? =
    ([r.id, r.function, r.byteCount] ++ r.data ++ [r.crcLo, r.crcHi])[k]? := by
  have hlen : ([r.id, r.function, r.byteCount] ++ r.data ++ [r.crcLo, r.crcHi]).length =
      validRespFrameLen nCount := by
    simp only [List.length_append, List.length_cons, List.length_nil, r.data_length,
      validRespFrameLen]
    omega
  conv_lhs => rw [r.eq]
  rw [List.append_assoc, List.getElem?_append_right (by rw [r.before_length]; omega),
    r.before_length, Nat.add_sub_cancel_left, List.getElem?_append_left (by omega)]

theorem frameAt_eq (ucDeviceID : UInt8) :
    frameAt ucDeviceID nCount pRecvBuff i = some (decide (r.Valid ucDeviceID)) := by
  have h0 := r.getElem? 0 (by rw [validRespFrameLen]; omega)
  have h1 := r.getElem? 1 (by rw [validRespFrameLen]; omega)
  have h2 := r.getElem? 2 (by rw [validRespFrameLen]; omega)
  have hlo := r.getElem? (3 + r.data.length) (by rw [validRespFrameLen, r.data_length]; omega)
  have hhi := r.getElem? (3 + r.data.length + 1) (by rw [validRespFrameLen, r.data_length]; omega)
  have hhead : ([r.id, r.function, r.byteCount] ++ r.data).length = 3 + r.data.length := by
    rw [List.length_append]
    rfl
  rw [List.getElem?_append_right (by omega), hhead, Nat.sub_self] at hlo
  rw [List.getElem?_append_right (by omega), hhead, Nat.add_sub_cancel_left] at hhi
  have hpos : i + validRespFrameLen nCount - 2 = i + (3 + r.data.length) := by
    rw [validRespFrameLen, r.data_length]
    omega
  have hbytes : bytesAt pRecvBuff i (validRespFrameLen nCount - 2) =
      some ([r.id, r.function, r.byteCount] ++ r.data) := by
    have hlen : ([r.id, r.function, r.byteCount] ++ r.data).length = validRespFrameLen nCount - 2 := by
      rw [hhead, r.data_length, validRespFrameLen]
      omega
    have hle : i + (validRespFrameLen nCount - 2) ≤ pRecvBuff.length := by
      rw [congrArg List.length r.eq]
      simp only [List.length_append, r.before_length] at hlen ⊢
      omega
    rw [bytesAt, if_pos hle]
    conv_lhs => rw [r.eq]
    rw [List.append_assoc, List.drop_left' r.before_length, List.append_assoc, List.take_left' hlen]
  have hid : pRecvBuff[i]? = some r.id := h0
  have hfunction : pRecvBuff[i + 1]? = some r.function := h1
  have hcount : pRecvBuff[i + 2]? = some r.byteCount := h2
  rw [frameAt, hid, hfunction, hcount, hbytes, wordAt, hpos, hlo, Nat.add_assoc, hhi]
  simp only [Option.bind_eq_bind, Option.bind_some]
  by_cases hid : r.id = ucDeviceID
  · by_cases hfn : r.function = 0x03
    · by_cases hbc : r.byteCount.toNat = nCount.toNat * 2 <;> simp [Valid, hid, hfn, hbc]
    · simp [Valid, hfn, hid]
  · simp [Valid, hid]

/-- The bytes are a response exactly when they are one by the words of Modbus. -/
theorem valid_iff (ucDeviceID : UInt8) :
    r.Valid ucDeviceID ↔ ∃ data, ResponseAt ucDeviceID nCount pRecvBuff i data := by
  constructor
  · rintro ⟨hid, hfn, hbc, hcrc⟩
    refine ⟨r.data, r.before, _, r.behind, r.eq, r.before_length, r.byteCount, r.crcLo, r.crcHi,
      by omega, r.data_length, by rw [hid, hfn], ?_⟩
    rw [← word_eq, ← hcrc, crc16_eq, hid, hfn]
  · rintro ⟨data, before, frame, behind, heq, hbefore, byteCount, crcLo, crcHi, hbc, hdata, rfl, hcrc⟩
    have hsame := heq.symm.trans r.eq
    rw [List.append_assoc, List.append_assoc r.before] at hsame
    obtain ⟨-, hsame⟩ := List.append_inj hsame (hbefore.trans r.before_length.symm)
    obtain ⟨hframe, -⟩ := List.append_inj hsame (by simp [hdata, r.data_length])
    obtain ⟨hhead, htail⟩ := List.append_inj hframe (by simp [hdata, r.data_length])
    simp only [List.cons_append, List.nil_append, List.cons.injEq, and_true] at hhead htail
    obtain ⟨hid, hfn, hbyte, hd⟩ := hhead
    obtain ⟨hlo, hhi⟩ := htail
    refine ⟨hid.symm, hfn.symm, by rw [← hbyte]; omega, ?_⟩
    rw [← UInt16.toBitVec_inj, crc16_eq, word_eq, ← hid, ← hfn, ← hbyte, ← hd, ← hlo, ← hhi, hcrc]

end Room

theorem ResponseAt.le {data : List UInt8} (h : ResponseAt ucDeviceID nCount pRecvBuff i data) :
    i + validRespFrameLen nCount ≤ pRecvBuff.length := by
  obtain ⟨before, frame, behind, rfl, hbefore, byteCount, crcLo, crcHi, -, hdata, rfl, -⟩ := h
  rw [validRespFrameLen]
  simp only [List.length_append, List.length_cons, List.length_nil]
  omega

/-- Whether the search stops at a place. -/
def responds (ucDeviceID nCount : UInt8) (pRecvBuff : List UInt8) (i : Nat) : Bool :=
  frameAt ucDeviceID nCount pRecvBuff i == some true

theorem responds_iff (h : i + validRespFrameLen nCount ≤ pRecvBuff.length) :
    responds ucDeviceID nCount pRecvBuff i = true ↔
      ∃ data, ResponseAt ucDeviceID nCount pRecvBuff i data := by
  obtain ⟨r⟩ := room_of_le h
  rw [responds, r.frameAt_eq, ← r.valid_iff]
  simp

theorem searchFrom_eq {turns : Nat}
    (h : ∀ j, i ≤ j → j < i + turns → j + validRespFrameLen nCount ≤ pRecvBuff.length) :
    searchFrom ucDeviceID nCount pRecvBuff i turns =
      some ((List.range' i turns).find? (responds ucDeviceID nCount pRecvBuff)) := by
  induction turns generalizing i with
  | zero => rfl
  | succ turns ih =>
    obtain ⟨r⟩ := room_of_le (h i (Nat.le_refl i) (by omega))
    have hrest := ih (i := i + 1) fun j hj hlt => h j (by omega) (by omega)
    rw [searchFrom, r.frameAt_eq, List.range'_succ, List.find?_cons, responds, r.frameAt_eq]
    by_cases hv : r.Valid ucDeviceID
    · simp [hv]
    · simpa [hv] using hrest

theorem regsFrom_eq {count : Nat} (h : i + 2 * count ≤ pRecvBuff.length) :
    regsFrom pRecvBuff i count = some (wordsOf ((pRecvBuff.drop i).take (2 * count))) := by
  induction count generalizing i with
  | zero => simp [regsFrom, wordsOf]
  | succ count ih =>
    have h0 : i < pRecvBuff.length := by omega
    have h1 : i + 1 < pRecvBuff.length := by omega
    rw [regsFrom, ih (by omega), List.getElem?_eq_getElem h0, List.getElem?_eq_getElem h1,
      List.drop_eq_getElem_cons h0, List.drop_eq_getElem_cons h1]
    rfl

/-- The data of a response are what the registers are read from. -/
theorem ResponseAt.regsFrom {data : List UInt8}
    (h : ResponseAt ucDeviceID nCount pRecvBuff i data) :
    regsFrom pRecvBuff (i + 3) nCount.toNat = some (wordsOf data) := by
  have hle := h.le
  rw [validRespFrameLen] at hle
  rw [regsFrom_eq (by omega)]
  obtain ⟨before, frame, behind, rfl, rfl, byteCount, crcLo, crcHi, -, hdata, rfl, -⟩ := h
  have hdrop : (before ++ ([ucDeviceID, 0x03, byteCount] ++ data ++ [crcLo, crcHi]) ++ behind).drop
      (before.length + 3) = data ++ ([crcLo, crcHi] ++ behind) := by
    rw [List.append_assoc, ← List.drop_drop, List.drop_left]
    simp
  rw [hdrop, ← hdata, List.take_left]

theorem regsOf_of_lt (h : pRecvBuff.length < validRespFrameLen nCount) :
    regsOf ucDeviceID nCount pRecvBuff = some (retError, []) := by
  rw [regsOf, if_pos h]

/-- Past the check of the length the first response decides. -/
theorem regsOf_of_le (h : validRespFrameLen nCount ≤ pRecvBuff.length) :
    regsOf ucDeviceID nCount pRecvBuff =
      match (List.range (pRecvBuff.length - validRespFrameLen nCount + 1)).find?
        (responds ucDeviceID nCount pRecvBuff) with
      | none => some (retError, [])
      | some pRecvFrame =>
        (regsFrom pRecvBuff (pRecvFrame + 3) nCount.toNat).map fun pRegs => (retOk, pRegs) := by
  have hsearch : searchFrom ucDeviceID nCount pRecvBuff 0
      (pRecvBuff.length - validRespFrameLen nCount + 1) =
        some ((List.range (pRecvBuff.length - validRespFrameLen nCount + 1)).find?
          (responds ucDeviceID nCount pRecvBuff)) := by
    rw [List.range_eq_range']
    exact searchFrom_eq fun j _ hlt => by omega
  rw [regsOf, if_neg (by omega), hsearch]
  cases (List.range (pRecvBuff.length - validRespFrameLen nCount + 1)).find?
      (responds ucDeviceID nCount pRecvBuff) with
  | none => rfl
  | some pRecvFrame =>
    cases hregs : regsFrom pRecvBuff (pRecvFrame + 3) nCount.toNat <;> simp [hregs]

end Positions

/-- The registers are read only from what was received, `FTE_RET_OK` is returned exactly when a
complete response stands somewhere in it, and the registers are then the words of the first one. -/
theorem regsOf_response (ucDeviceID nCount : UInt8) (pRecvBuff : List UInt8) :
    ∃ xRet pRegs, regsOf ucDeviceID nCount pRecvBuff = some (xRet, pRegs) ∧
      (xRet = retOk ↔ ∃ offset data, ResponseAt ucDeviceID nCount pRecvBuff offset data) ∧
      ∀ offset data, ResponseAt ucDeviceID nCount pRecvBuff offset data →
        (∀ j < offset, ¬ ∃ d, ResponseAt ucDeviceID nCount pRecvBuff j d) → pRegs = wordsOf data := by
  rcases Nat.lt_or_ge pRecvBuff.length (validRespFrameLen nCount) with hlt | hle
  · have hnone : ∀ offset data, ¬ ResponseAt ucDeviceID nCount pRecvBuff offset data := by
      intro offset data h
      have := h.le
      omega
    refine ⟨retError, [], regsOf_of_lt hlt, iff_of_false (by decide) ?_, ?_⟩
    · rintro ⟨offset, data, h⟩
      exact hnone offset data h
    · intro offset data h
      exact absurd h (hnone offset data)
  · rw [regsOf_of_le hle]
    cases hfind : (List.range (pRecvBuff.length - validRespFrameLen nCount + 1)).find?
        (responds ucDeviceID nCount pRecvBuff) with
    | none =>
      rw [List.find?_range_eq_none] at hfind
      have hnone : ∀ offset data, ¬ ResponseAt ucDeviceID nCount pRecvBuff offset data := by
        intro offset data h
        have hlast := h.le
        have hno := hfind offset (by omega)
        rw [(responds_iff hlast).mpr ⟨data, h⟩] at hno
        cases hno
      refine ⟨retError, [], rfl, iff_of_false (by decide) ?_, ?_⟩
      · rintro ⟨offset, data, h⟩
        exact hnone offset data h
      · intro offset data h
        exact absurd h (hnone offset data)
    | some p =>
      rw [List.find?_range_eq_some] at hfind
      obtain ⟨hp, hmem, hfirst⟩ := hfind
      rw [List.mem_range] at hmem
      obtain ⟨data, hdata⟩ := (responds_iff (by omega)).mp hp
      refine ⟨retOk, wordsOf data, by simp [hdata.regsFrom], iff_of_true rfl ⟨p, data, hdata⟩, ?_⟩
      intro offset d hd hbefore
      have hoff : offset = p := by
        rcases Nat.lt_trichotomy offset p with hlt | heq | hgt
        · have hno := hfirst offset hlt
          rw [(responds_iff hd.le).mpr ⟨d, hd⟩] at hno
          cases hno
        · exact heq
        · exact absurd ⟨data, hdata⟩ (hbefore p hgt)
      subst hoff
      have hsame := hd.regsFrom.symm.trans hdata.regsFrom
      exact (Option.some.inj hsame).symm

section Operation

variable {ucDeviceID nCount : UInt8} {pRecvBuff : List UInt8} {i : Nat}

theorem withCrc_inj {bytes : List UInt8} {crcLo crcHi : UInt8} :
    bytes ++ [crcLo, crcHi] = withCrc crc16 bytes ↔
      crc16 bytes = UInt16.ofNat (crcLo.toNat + 256 * crcHi.toNat) := by
  have hw := (crc16 bytes).toNat_lt
  have hlo := crcLo.toNat_lt
  have hhi := crcHi.toNat_lt
  simp only [withCrc, List.append_cancel_left_eq, List.cons.injEq, and_true, ← UInt8.toNat_inj,
    ← UInt16.toNat_inj, UInt8.toNat_ofNat', UInt16.toNat_ofNat']
  omega

theorem withCrc_eq (bytes : List UInt8) :
    withCrc crc16 bytes = bytes ++ crcBytes (crc16 bytes) := by
  have hlow : UInt8.ofNat (crc16 bytes).toNat = (crc16 bytes &&& 0xFF).toUInt8 :=
    (toUInt8_low (crc16 bytes)).symm
  have hhigh : UInt8.ofNat ((crc16 bytes).toNat / 256) = ((crc16 bytes >>> 8) &&& 0xFF).toUInt8 := by
    rw [toUInt8_low]
    exact congrArg UInt8.ofNat (Nat.shiftRight_eq_div_pow (crc16 bytes).toNat 8).symm
  rw [withCrc, hlow, hhigh, crcBytes]

/-- The check over a whole frame comes out as zero. -/
theorem crc16_withCrc (bytes : List UInt8) : crc16 (withCrc crc16 bytes) = 0 := by
  rw [withCrc_eq, crc16_crcBytes]

namespace Room

theorem frame_eq (r : Room nCount pRecvBuff i) :
    (pRecvBuff.drop i).take (validRespFrameLen nCount) =
      [r.id, r.function, r.byteCount] ++ r.data ++ [r.crcLo, r.crcHi] := by
  have hlen : ([r.id, r.function, r.byteCount] ++ r.data ++ [r.crcLo, r.crcHi]).length =
      validRespFrameLen nCount := by
    simp only [List.length_append, List.length_cons, List.length_nil, r.data_length,
      validRespFrameLen]
    omega
  conv_lhs => rw [r.eq]
  rw [List.append_assoc, List.drop_left' r.before_length, List.take_left' hlen]

/-- The test of the operation on the frame is the one of the search. -/
theorem test_eq (r : Room nCount pRecvBuff i) (ucDeviceID : UInt8) :
    (let frame := (pRecvBuff.drop i).take (validRespFrameLen nCount)
     [ucDeviceID.toNat, 0x03, nCount.toNat * 2].isPrefixOf (frame.map UInt8.toNat) &&
       decide (frame = withCrc crc16 (frame.take (validRespFrameLen nCount - 2)))) =
      responds ucDeviceID nCount pRecvBuff i := by
  have htake : ([r.id, r.function, r.byteCount] ++ r.data ++ [r.crcLo, r.crcHi]).take
      (validRespFrameLen nCount - 2) = [r.id, r.function, r.byteCount] ++ r.data := by
    apply List.take_left'
    simp only [List.length_append, List.length_cons, List.length_nil, r.data_length,
      validRespFrameLen]
    omega
  have hthree : (3 : UInt8).toNat = 3 := rfl
  dsimp only
  rw [r.frame_eq, htake, responds, r.frameAt_eq, Bool.eq_iff_iff]
  simp only [Valid, Bool.and_eq_true, decide_eq_true_eq, beq_iff_eq, Option.some.injEq,
    List.map_append, List.map_cons, List.cons_append, List.isPrefixOf_iff_prefix,
    List.cons_prefix_cons, List.nil_prefix, and_true, List.nil_append, ← UInt8.toNat_inj, hthree]
  constructor
  · rintro ⟨⟨hid, hfn, hbc⟩, hcrc⟩
    exact ⟨hid.symm, hfn.symm, hbc.symm, withCrc_inj.mp hcrc⟩
  · rintro ⟨hid, hfn, hbc, hcrc⟩
    exact ⟨⟨hid.symm, hfn.symm, hbc.symm⟩, withCrc_inj.mpr hcrc⟩

end Room

theorem findFrame_eq (ucDeviceID : UInt8) (h : validRespFrameLen nCount ≤ pRecvBuff.length) :
    findFrame crc16 [ucDeviceID.toNat, 0x03, nCount.toNat * 2] (validRespFrameLen nCount) pRecvBuff =
      ((List.range (pRecvBuff.length - validRespFrameLen nCount + 1)).find?
        (responds ucDeviceID nCount pRecvBuff)).map
          fun i => (pRecvBuff.drop i).take (validRespFrameLen nCount) := by
  rw [findFrame, List.find?_map]
  congr 1
  apply List.find?_congr
  intro i hi
  rw [List.mem_range] at hi
  have hroom : i + validRespFrameLen nCount ≤ pRecvBuff.length := by omega
  obtain ⟨r⟩ := room_of_le hroom
  exact r.test_eq ucDeviceID

theorem wordsOf_eq {data : List UInt8} {count : Nat} (h : data.length = 2 * count) :
    wordsOf data = (List.range count).map fun j =>
      ntohs (data.getD (j * 2) 0) (data.getD (j * 2 + 1) 0) := by
  induction count generalizing data with
  | zero =>
    rw [List.length_eq_zero_iff.mp h]
    rfl
  | succ count ih =>
    rcases data with _ | ⟨hi, _ | ⟨lo, data⟩⟩
    · cases h
    · simp only [List.length_cons, List.length_nil] at h
      omega
    · simp only [List.length_cons] at h
      rw [wordsOf, ih (by omega), List.range_succ_eq_map, List.map_cons, List.map_map]
      simp only [Function.comp_def, Nat.succ_mul, List.getD_cons_succ, List.getD_cons_zero,
        Nat.zero_mul]

/-- The registers that the operation takes out of the frame. -/
theorem ResponseAt.regs_eq {data : List UInt8} (h : ResponseAt ucDeviceID nCount pRecvBuff i data) :
    (let pRecvFrame := (pRecvBuff.drop i).take (validRespFrameLen nCount)
     (List.range nCount.toNat).map fun j =>
       ntohs (pRecvFrame.getD (3 + j * 2) 0) (pRecvFrame.getD (3 + j * 2 + 1) 0)) =
      wordsOf data := by
  obtain ⟨before, frame, behind, rfl, rfl, byteCount, crcLo, crcHi, -, hdata, rfl, -⟩ := h
  have hlen : ([ucDeviceID, 0x03, byteCount] ++ data ++ [crcLo, crcHi]).length =
      validRespFrameLen nCount := by
    simp only [List.length_append, List.length_cons, List.length_nil, hdata, validRespFrameLen]
    omega
  rw [List.append_assoc before, List.drop_left, List.take_left' hlen, wordsOf_eq hdata]
  apply List.map_congr_left
  intro j hj
  rw [List.mem_range] at hj
  have hget (k : Nat) (hk : k < data.length) :
      ([ucDeviceID, 0x03, byteCount] ++ data ++ [crcLo, crcHi]).getD (3 + k) 0 = data.getD k 0 := by
    have hhead : [ucDeviceID, 0x03, byteCount].length = 3 := rfl
    rw [List.append_assoc, List.getD_append_right _ _ _ _ (by omega), hhead, Nat.add_sub_cancel_left,
      List.getD_append _ _ _ _ hk]
  rw [Nat.add_assoc, hget _ (by omega), hget _ (by omega)]

/-- The operation with room for the response answers what `regsOf` says of the bytes received. -/
theorem modbusGetRegs_eq (pUCS : FteUcs) (usAddr : UInt16) (nTimeout : UInt32)
    (arrivals : List Arrival) :
    modbusGetRegs crc16 pUCS ucDeviceID usAddr nCount nTimeout true arrivals = (do
      let (pRecvBuff, pUCS) ← sendAndRecv pUCS
        (withCrc crc16 ([ucDeviceID, 0x03] ++ htons usAddr ++ [0x00, nCount]))
        (validRespFrameLen nCount * 2) nTimeout arrivals
      match regsOf ucDeviceID nCount pRecvBuff with
      | some (xRet, pRegs) => pure (xRet, pRegs, pUCS)
      | none => Run.wait) := by
  rw [modbusGetRegs, if_pos rfl]
  change (_ >>= _) = (_ >>= _)
  congr 1
  funext received
  rcases received with ⟨pRecvBuff, pUCS⟩
  dsimp only
  have hlen : 5 + 2 * nCount.toNat = validRespFrameLen nCount := rfl
  rw [hlen]
  rcases Nat.lt_or_ge pRecvBuff.length (validRespFrameLen nCount) with hlt | hle
  · rw [regsOf_of_lt hlt]
    exact if_pos hlt
  · have hfind := findFrame_eq ucDeviceID hle
    rw [regsOf_of_le hle, if_neg (Nat.not_lt.mpr hle)]
    cases hfirst : (List.range (pRecvBuff.length - validRespFrameLen nCount + 1)).find?
        (responds ucDeviceID nCount pRecvBuff) with
    | none =>
      rw [hfind, hfirst]
      rfl
    | some p =>
      have hp := List.find?_some hfirst
      have hmem := List.mem_of_find?_eq_some hfirst
      rw [List.mem_range] at hmem
      obtain ⟨data, hdata⟩ := (responds_iff (by omega)).mp hp
      simp only [hdata.regsFrom, ← hdata.regs_eq, hfind, hfirst, Option.map_some]

end Operation

end EdgeNode.Ucs
