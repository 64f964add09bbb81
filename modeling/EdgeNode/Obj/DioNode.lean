import EdgeNode.Obj.Jcg06
import EdgeNode.Ucs.SetReg

/-! The DIO node, and the frames that it and the rain gauge exchange with the units on their line. -/

namespace EdgeNode.Obj

open Sys Ucs Values

namespace DioNode

/-- `FTE_DIO_NODE_DIO` -/
structure Dio where
  bValue : UInt32
  bType : UInt32
deriving DecidableEq

/-- The part of `FTE_DIO_NODE_STATUS` that the requests change. -/
structure Status where
  pValue : Nat → Values.Value
  pDio : Nat → Dio

/-- `FTE_DIO_NODE_DIO_MAX` and `FTE_DIO_NODE_FIELD_MAX`. -/
def dioMax : Nat := 7

/-- `FTE_DIO_NODE_DATA_ADDRESS + i`. -/
def dataRegister (i : Nat) : UInt16 := UInt16.ofNat (40000 + i)

/-- `FTE_DIO_NODE_set`. -/
def set (s : Status) (ulIndex bValue : UInt32) (pRcvd : List UInt8) :
    Ret × Status × List Exchange :=
  if ulIndex.toNat < dioMax then
    let pReqFrame := withCrc crc16 (writeRequest 1 ulIndex.toUInt16 bValue.toUInt16)
    let pRecvBuff := pRcvd.take 10
    if setRegOf 1 pRecvBuff = retOk then
      let pDio := Function.update s.pDio ulIndex.toNat { s.pDio ulIndex.toNat with bValue }
      let stores := (findFrame crc16 [1, 6] 8 pRecvBuff).toList.map fun frame =>
        (ulIndex.toNat, frame)
      (retOk, { s with pDio }, [⟨pReqFrame, stores⟩])
    else (retError, s, [⟨pReqFrame, []⟩])
  else (retError, s, [])

/-- The request of one register. -/
def readRequest (ucDeviceID : UInt8) (usAddr : UInt16) : List UInt8 :=
  withCrc crc16 ([ucDeviceID, 0x03] ++ htons usAddr ++ [0x00, 1])

/-- `pRecvFrame` of `FTE_UCS_MODBUS_getRegs`. -/
def responseFrame (ucDeviceID nCount : UInt8) (pRecvBuff : List UInt8) : Option (List UInt8) :=
  if pRecvBuff.length < validRespFrameLen nCount then none
  else findFrame crc16 [ucDeviceID.toNat, 0x03, nCount.toNat * 2] (validRespFrameLen nCount) pRecvBuff

/-- `FTE_DIO_NODE_mb_get_reg` of one register: what it returns, whether the request is sent, and the
frame taken for the response. Nothing is received where there is no memory for it. -/
def mbGetReg (ucs : Bool) (ucDeviceID : UInt8) (reply : Option (List UInt8)) :
    Ret × Bool × Option (List UInt8) :=
  match ucs, reply with
  | false, _ => (retError, false, none)
  | true, none => (mqxOutOfMemory, false, none)
  | true, some pRcvd =>
    match responseFrame ucDeviceID 1 (pRcvd.take (validRespFrameLen 1 * 2)) with
    | none => (retError, true, none)
    | some pRecvFrame => (retOk, true, some pRecvFrame)

/-- The value and the field of a register read. -/
def storeField (i : Nat) (pRecvFrame : List UInt8) (s : Status) : Status :=
  let usValue := ntohs (pRecvFrame.getD 3 0) (pRecvFrame.getD 4 0)
  let value := (accept (s.pValue i) (if usValue = 1 then 1 else 0)).2
  { pValue := Function.update s.pValue i value
    pDio := Function.update s.pDio i { s.pDio i with bValue := value.xData } }

/-- The loop of `FTE_DIO_NODE_update` over the fields to go. -/
def updateFields (ucs : Bool) (ucDeviceID : UInt8) (replies : Nat → Option (List UInt8)) :
    List Nat → Status → Ret × Status × List Exchange
  | [], s => (retOk, s, [])
  | i :: fields, s =>
    if (s.pDio i).bType = 0 then
      let pReqFrame := readRequest ucDeviceID (dataRegister i)
      match mbGetReg ucs ucDeviceID (replies i) with
      | (_, _, some pRecvFrame) =>
        let (xRet, s, exchanges) :=
          updateFields ucs ucDeviceID replies fields (storeField i pRecvFrame s)
        (xRet, s, ⟨pReqFrame, [(i, pRecvFrame)]⟩ :: exchanges)
      | (xRet, sent, none) => (xRet, s, if sent then [⟨pReqFrame, []⟩] else [])
    else updateFields ucs ucDeviceID replies fields s

/-- `FTE_DIO_NODE_update`; the address of the node is cut to a byte. -/
def update (nSensorID : UInt32) (s : Status) (ucs : Bool) (replies : Nat → Option (List UInt8)) :
    Ret × Status × List Exchange :=
  updateFields ucs nSensorID.toUInt8 replies (List.range dioMax) s

/-- The read is the one of the line. -/
theorem modbusGetRegs_responseFrame (pUCS : FteUcs) (ucDeviceID : UInt8) (usAddr : UInt16)
    (nTimeout : UInt32) (arrivals : List Arrival) :
    modbusGetRegs crc16 pUCS ucDeviceID usAddr 1 nTimeout true arrivals = (do
      let (pRecvBuff, pUCS) ← sendAndRecv pUCS (readRequest ucDeviceID usAddr)
        (validRespFrameLen 1 * 2) nTimeout arrivals
      match responseFrame ucDeviceID 1 pRecvBuff with
      | none => pure (retError, [], pUCS)
      | some pRecvFrame =>
        pure (retOk, [ntohs (pRecvFrame.getD 3 0) (pRecvFrame.getD 4 0)], pUCS)) := by
  rw [modbusGetRegs, if_pos rfl]
  change (_ >>= _) = (_ >>= _)
  congr 1
  funext received
  rcases received with ⟨pRecvBuff, pUCS⟩
  dsimp only [responseFrame]
  have hlen : 5 + 2 * (1 : UInt8).toNat = validRespFrameLen 1 := rfl
  rw [hlen]
  split
  · rfl
  · rfl

end DioNode

section Operations

/-- A frame with the ID first, the function code behind it and the CRC-16 of these and the data at its
end, the low byte first. -/
def Framed (nSensorID : UInt32) (function : UInt8) (frame : List UInt8) : Prop :=
  ∃ (id : UInt8) (data : List UInt8) (crcLo crcHi : UInt8), id.toNat = nSensorID.toNat ∧
    frame = id :: function :: data ++ [crcLo, crcHi] ∧
    (crcHi.toBitVec ++ crcLo.toBitVec : BitVec 16) = modbusCrc (id :: function :: data)

/-- The request goes to the unit, and values are stored out of replies of the unit to it only. -/
def Exchange.Directed (nSensorID : UInt32) (e : Exchange) : Prop :=
  ∃ function, Framed nSensorID function e.pSendData ∧
    ∀ st ∈ e.stores, Framed nSensorID function st.2

/-- The requests of the rain gauge and of the DIO node, with what is received for them. -/
inductive UnitOperation where
  | gaugeUpdate (s : Jcg06.Status) (r : Jcg06.Reading)
  | gaugeReset (s : Jcg06.Status) (xRequestTime : TimeStruct) (pRcvd : List UInt8)
  | nodeSet (s : DioNode.Status) (ulIndex bValue : UInt32) (pRcvd : List UInt8)
  | nodeUpdate (s : DioNode.Status) (ucs : Bool) (replies : Nat → Option (List UInt8))

namespace UnitOperation

def exchanges (nSensorID : UInt32) : UnitOperation → List Exchange
  | gaugeUpdate s r => (Jcg06.update s r).2.2
  | gaugeReset s xRequestTime pRcvd => [(Jcg06.resetRainfall s xRequestTime pRcvd).2.2]
  | nodeSet s ulIndex bValue pRcvd => (DioNode.set s ulIndex bValue pRcvd).2.2
  | nodeUpdate s ucs replies => (DioNode.update nSensorID s ucs replies).2.2

/-- The operation changes what is stored of the field `i`. -/
def Changes (nSensorID : UInt32) (i : Nat) : UnitOperation → Prop
  | gaugeUpdate s r => (Jcg06.update s r).2.1.pValue i ≠ s.pValue i
  | gaugeReset s xRequestTime pRcvd =>
    (Jcg06.resetRainfall s xRequestTime pRcvd).2.1.pValue i ≠ s.pValue i
  | nodeSet s ulIndex bValue pRcvd =>
    ((DioNode.set s ulIndex bValue pRcvd).2.1.pValue i,
      (DioNode.set s ulIndex bValue pRcvd).2.1.pDio i) ≠ (s.pValue i, s.pDio i)
  | nodeUpdate s ucs replies =>
    ((DioNode.update nSensorID s ucs replies).2.1.pValue i,
      (DioNode.update nSensorID s ucs replies).2.1.pDio i) ≠ (s.pValue i, s.pDio i)

/-- A write names the register out of which an update reads the field. -/
def Names (pSendData : List UInt8) : UnitOperation → Prop
  | nodeSet _ ulIndex _ _ => (pSendData.drop 2).take 2 = htons (DioNode.dataRegister ulIndex.toNat)
  | _ => True

/-- All requests go to the unit and to the right register, and only their replies are stored. -/
structure Keeps (nSensorID : UInt32) (op : UnitOperation) : Prop where
  directed : ∀ e ∈ op.exchanges nSensorID, e.Directed nSensorID
  names : ∀ e ∈ op.exchanges nSensorID, op.Names e.pSendData
  stored : ∀ i, op.Changes nSensorID i → ∃ e ∈ op.exchanges nSensorID, ∃ st ∈ e.stores, st.1 = i

/-- The update of the node sends a request: the first of its input fields is asked for. -/
def Asks (s : DioNode.Status) (ucs : Bool) (replies : Nat → Option (List UInt8)) : Prop :=
  ucs = true ∧ ∃ i, (List.range DioNode.dioMax).find? (fun i => (s.pDio i).bType = 0) = some i ∧
    (replies i).isSome

/-- The gauge has the ID 2 that its requests carry and what is taken for their replies are replies to
them; the node has an ID that fits into a byte where it is read, and is not written. -/
def Right (nSensorID : UInt32) : UnitOperation → Prop
  | gaugeUpdate s r => nSensorID = 2 ∧ (Jcg06.accepts 7 (r.pRcvd.take 7) →
      r.pRcvd.take 2 = [0x02, 0x04] ∧
        (Jcg06.resetDue s.xLastUpdateTime r.xCurrentTime r.stack → r.acknowledges →
          r.pResetRcvd.take 2 = [0x02, 0x10]))
  | gaugeReset _ _ pRcvd => nSensorID = 2 ∧
      (Jcg06.accepts 8 (pRcvd.take 8) → pRcvd.take 2 = [0x02, 0x10])
  | nodeSet _ ulIndex _ _ => DioNode.dioMax ≤ ulIndex.toNat
  | nodeUpdate s ucs replies => nSensorID.toNat < 256 ∨ ¬ Asks s ucs replies

end UnitOperation

end Operations

section Frames

variable {nSensorID : UInt32} {function : UInt8} {frame : List UInt8}

theorem framed_iff : Framed nSensorID function frame ↔ ∃ (id : UInt8) (data : List UInt8),
    id.toNat = nSensorID.toNat ∧ frame = withCrc crc16 (id :: function :: data) := by
  have hcrc {bytes : List UInt8} {crcLo crcHi : UInt8} :
      (crcHi.toBitVec ++ crcLo.toBitVec : BitVec 16) = modbusCrc bytes ↔
        bytes ++ [crcLo, crcHi] = withCrc crc16 bytes := by
    rw [withCrc_inj, ← UInt16.toBitVec_inj, crc16_eq, word_eq, eq_comm]
  constructor
  · rintro ⟨id, data, crcLo, crcHi, hid, rfl, hvalid⟩
    exact ⟨id, data, hid, hcrc.mp hvalid⟩
  · rintro ⟨id, data, hid, rfl⟩
    exact ⟨id, data, _, _, hid, rfl, hcrc.mpr rfl⟩

/-- The first two bytes of a frame with its check at the end say whose it is and of what function. -/
theorem framed_checked {n : Nat} (hlen : frame.length = n + 4)
    (hcrc : frame = withCrc crc16 (frame.take (n + 2))) :
    Framed nSensorID function frame ↔
      ∃ id : UInt8, id.toNat = nSensorID.toNat ∧ frame.take 2 = [id, function] := by
  rw [framed_iff]
  constructor
  · rintro ⟨id, data, hid, rfl⟩
    exact ⟨id, hid, rfl⟩
  · rintro ⟨id, hid, htwo⟩
    refine ⟨id, (frame.take (n + 2)).drop 2, hid, ?_⟩
    have hsplit : frame.take (n + 2) = id :: function :: (frame.take (n + 2)).drop 2 := by
      conv_lhs => rw [← List.take_append_drop 2 (frame.take (n + 2)), List.take_take,
        Nat.min_eq_left (by omega), htwo]
      rfl
    rw [← hsplit]
    exact hcrc

theorem framed_of_findFrame {id : UInt8} {rest : List Nat} {n : Nat} {pRecvBuff : List UInt8}
    (hid : id.toNat = nSensorID.toNat) (hn : n + 4 ≤ pRecvBuff.length)
    (h : findFrame crc16 (id.toNat :: function.toNat :: rest) (n + 4) pRecvBuff = some frame) :
    Framed nSensorID function frame := by
  have htest := List.find?_some h
  obtain ⟨i, hi, rfl⟩ := List.mem_map.mp (List.mem_of_find?_eq_some h)
  rw [List.mem_range] at hi
  rw [Bool.and_eq_true, decide_eq_true_eq, List.isPrefixOf_iff_prefix] at htest
  obtain ⟨hstart, hcrc⟩ := htest
  have hlen : ((pRecvBuff.drop i).take (n + 4)).length = n + 4 := by
    rw [List.length_take, List.length_drop]
    omega
  refine (framed_checked hlen hcrc).mpr ⟨id, hid, ?_⟩
  generalize (pRecvBuff.drop i).take (n + 4) = frame at *
  match frame, hlen with
  | first :: second :: tail, _ =>
    rw [List.map_cons, List.map_cons, List.cons_prefix_cons, List.cons_prefix_cons, UInt8.toNat_inj,
      UInt8.toNat_inj] at hstart
    obtain ⟨rfl, rfl, -⟩ := hstart
    rfl

theorem accepts_iff {n : Nat} {pRcvdData : List UInt8} :
    Jcg06.accepts (n + 4) pRcvdData = true ↔
      pRcvdData.length = n + 4 ∧ pRcvdData = withCrc crc16 (pRcvdData.take (n + 2)) := by
  have hsub : n + 4 - 2 = n + 2 := rfl
  rw [Jcg06.accepts, Bool.and_eq_true, decide_eq_true_eq, decide_eq_true_eq, hsub]
  refine and_congr_right fun hlen => ?_
  have htwo : (pRcvdData.drop (n + 2)).length = 2 := by
    rw [List.length_drop]
    omega
  obtain ⟨crcLo, crcHi, hdrop⟩ := List.length_eq_two.mp htwo
  have hlo : pRcvdData[n + 2]? = some crcLo := by
    rw [← Nat.add_zero (n + 2), ← List.getElem?_drop, hdrop]
    rfl
  have hhi : pRcvdData[n + 2 + 1]? = some crcHi := by
    rw [← List.getElem?_drop, hdrop]
    rfl
  have hsplit : pRcvdData = pRcvdData.take (n + 2) ++ [crcLo, crcHi] := by
    rw [← hdrop, List.take_append_drop]
  have hword : wordAt pRcvdData (n + 2) = some (UInt16.ofNat (crcLo.toNat + 256 * crcHi.toNat)) := by
    rw [wordAt, hlo, hhi]
    rfl
  conv_rhs => lhs; rw [hsplit]
  rw [hword, withCrc_inj, Option.some.injEq, eq_comm]

end Frames

section Gauge

variable {nSensorID : UInt32} {s : Jcg06.Status} {r : Jcg06.Reading} {xRequestTime : TimeStruct}
  {pRcvd : List UInt8}

theorem directed_iff {n : Nat} {id function : UInt8} {pSendData : List UInt8}
    {stores : List (Nat × List UInt8)} (hlen : pSendData.length = n + 4)
    (hcrc : pSendData = withCrc crc16 (pSendData.take (n + 2)))
    (htwo : pSendData.take 2 = [id, function]) :
    Exchange.Directed nSensorID ⟨pSendData, stores⟩ ↔
      id.toNat = nSensorID.toNat ∧ ∀ st ∈ stores, Framed nSensorID function st.2 := by
  simp only [Exchange.Directed, framed_checked hlen hcrc, htwo, List.cons.injEq, and_true]
  constructor
  · rintro ⟨function, ⟨id, hid, rfl, rfl⟩, hstores⟩
    exact ⟨hid, hstores⟩
  · rintro ⟨hid, hstores⟩
    exact ⟨function, ⟨id, hid, rfl, rfl⟩, hstores⟩

theorem two_iff : (2 : UInt8).toNat = nSensorID.toNat ↔ nSensorID = 2 := by
  rw [← UInt32.toNat_inj, eq_comm]
  rfl

theorem directed_rainfallRequest {stores : List (Nat × List UInt8)} :
    Exchange.Directed nSensorID ⟨Jcg06.rainfallRequest, stores⟩ ↔
      nSensorID = 2 ∧ ∀ st ∈ stores, Framed nSensorID 0x04 st.2 := by
  rw [directed_iff (n := 4) rfl (by decide +kernel) rfl, two_iff]

theorem directed_resetRequest {stores : List (Nat × List UInt8)} :
    Exchange.Directed nSensorID ⟨Jcg06.resetRequest, stores⟩ ↔
      nSensorID = 2 ∧ ∀ st ∈ stores, Framed nSensorID 0x10 st.2 := by
  rw [directed_iff (n := 7) rfl (by decide +kernel) rfl, two_iff]

theorem framed_accepted {n : Nat} {function : UInt8}
    (h : Jcg06.accepts (n + 4) (pRcvd.take (n + 4)) = true) :
    Framed 2 function (pRcvd.take (n + 4)) ↔ pRcvd.take 2 = [0x02, function] := by
  obtain ⟨hlen, hcrc⟩ := accepts_iff.mp h
  rw [framed_checked hlen hcrc, List.take_take, Nat.min_eq_left (by omega)]
  constructor
  · rintro ⟨id, hid, htwo⟩
    obtain rfl : id = 2 := UInt8.toNat_inj.mp hid
    exact htwo
  · exact fun htwo => ⟨2, rfl, htwo⟩

theorem directed_reset :
    (Jcg06.resetRainfall s xRequestTime pRcvd).2.2.Directed nSensorID ↔
      nSensorID = 2 ∧ (Jcg06.accepts 8 (pRcvd.take 8) → pRcvd.take 2 = [0x02, 0x10]) := by
  rw [Jcg06.resetRainfall]
  split
  next h =>
    simp only [directed_resetRequest, List.mem_singleton, forall_eq, h, true_implies]
    refine and_congr_right ?_
    rintro rfl
    exact framed_accepted (n := 4) h
  next h =>
    simp only [directed_resetRequest, List.not_mem_nil, false_implies, implies_true, and_true, h,
      Bool.false_eq_true]

theorem directed_update :
    (∀ e ∈ (Jcg06.update s r).2.2, e.Directed nSensorID) ↔
      UnitOperation.Right nSensorID (.gaugeUpdate s r) := by
  rw [UnitOperation.Right, Jcg06.update]
  by_cases h : Jcg06.accepts 7 (r.pRcvd.take 7) = true
  · have hstored : Exchange.Directed nSensorID
        ⟨Jcg06.rainfallRequest, [(0, r.pRcvd.take 7), (1, r.pRcvd.take 7)]⟩ ↔
        nSensorID = 2 ∧ r.pRcvd.take 2 = [0x02, 0x04] := by
      rw [directed_rainfallRequest]
      refine and_congr_right ?_
      rintro rfl
      simp only [List.forall_mem_cons, List.not_mem_nil, false_implies, implies_true, and_true,
        and_self]
      exact framed_accepted (n := 3) h
    simp only [h, if_true, true_implies]
    split
    next hdue =>
      change Jcg06.resetDue s.xLastUpdateTime r.xCurrentTime r.stack = true at hdue
      simp only [List.forall_mem_cons, List.not_mem_nil, false_implies, implies_true, and_true,
        hstored, directed_reset, hdue, true_implies]
      constructor
      · rintro ⟨⟨hid, hreply⟩, -, hreset⟩
        exact ⟨hid, hreply, hreset⟩
      · rintro ⟨hid, hreply, hreset⟩
        exact ⟨⟨hid, hreply⟩, hid, hreset⟩
    next hdue =>
      change ¬ Jcg06.resetDue s.xLastUpdateTime r.xCurrentTime r.stack = true at hdue
      simp only [List.forall_mem_cons, List.not_mem_nil, false_implies, implies_true, and_true,
        hstored, hdue, Bool.false_eq_true]
  · simp only [h, if_false, List.forall_mem_cons, List.not_mem_nil, false_implies, implies_true,
      and_true, directed_rainfallRequest, Bool.false_eq_true]

/-- What a reset changes it stores. -/
theorem stored_reset {i : Nat}
    (h : (Jcg06.resetRainfall s xRequestTime pRcvd).2.1.pValue i ≠ s.pValue i) :
    ∃ st ∈ (Jcg06.resetRainfall s xRequestTime pRcvd).2.2.stores, st.1 = i := by
  rw [Jcg06.resetRainfall] at h ⊢
  split at h
  next haccepts =>
    have hi : 2 = i := by
      by_contra hne
      exact h (Function.update_of_ne (Ne.symm hne) _ _)
    simp only [haccepts, if_true]
    exact ⟨(2, pRcvd.take 8), List.mem_singleton_self _, hi⟩
  next => exact absurd rfl h

theorem stored_update {i : Nat} (h : (Jcg06.update s r).2.1.pValue i ≠ s.pValue i) :
    ∃ e ∈ (Jcg06.update s r).2.2, ∃ st ∈ e.stores, st.1 = i := by
  have hmeasured (ulValue : UInt32) (t : Jcg06.Status) (h0 : i ≠ 0) (h1 : i ≠ 1) :
      (Jcg06.setValue 1 ulValue (Jcg06.setValue 0 ulValue t)).pValue i = t.pValue i :=
    (Function.update_of_ne h1 _ _).trans (Function.update_of_ne h0 _ _)
  rw [Jcg06.update] at h ⊢
  split at h
  next haccepts =>
    simp only [haccepts, if_true]
    by_cases h0 : i = 0
    · exact ⟨_, by split <;> exact List.mem_cons_self, (0, r.pRcvd.take 7), by simp, h0.symm⟩
    by_cases h1 : i = 1
    · exact ⟨_, by split <;> exact List.mem_cons_self, (1, r.pRcvd.take 7), by simp, h1.symm⟩
    dsimp only at h
    split at h
    next hdue =>
      simp only [hdue, if_true]
      refine ⟨_, List.mem_cons_of_mem _ (List.mem_singleton_self _), stored_reset ?_⟩
      rw [hmeasured _ _ h0 h1]
      exact h
    next => exact absurd (hmeasured _ _ h0 h1) h
  next => exact absurd rfl h

end Gauge

section Node

variable {nSensorID : UInt32} {ucs : Bool} {ucDeviceID : UInt8} {replies : Nat → Option (List UInt8)}
  {s : DioNode.Status}

open DioNode

theorem framed_responseFrame {pRecvBuff frame : List UInt8} (hid : ucDeviceID.toNat = nSensorID.toNat)
    (h : responseFrame ucDeviceID 1 pRecvBuff = some frame) : Framed nSensorID 0x03 frame := by
  rw [responseFrame] at h
  split at h
  next => cases h
  next hlen => exact framed_of_findFrame (n := 3) hid (Nat.le_of_not_lt hlen) h

theorem mbGetReg_frame {reply : Option (List UInt8)} {xRet : Ret} {sent : Bool} {frame : List UInt8}
    (h : mbGetReg ucs ucDeviceID reply = (xRet, sent, some frame)) :
    sent = true ∧ ∃ pRecvBuff, responseFrame ucDeviceID 1 pRecvBuff = some frame := by
  unfold mbGetReg at h
  split at h
  · cases h
  · cases h
  · split at h
    next => cases h
    next hframe =>
      cases h
      exact ⟨rfl, _, hframe⟩

theorem mbGetReg_sent {reply : Option (List UInt8)} :
    (mbGetReg ucs ucDeviceID reply).2.1 = true ↔ ucs = true ∧ reply.isSome := by
  unfold mbGetReg
  split
  · simp
  · simp
  · split <;> simp

section Turns

variable {i : Nat} {fields : List Nat}

theorem updateFields_skip (h : (s.pDio i).bType ≠ 0) :
    updateFields ucs ucDeviceID replies (i :: fields) s =
      updateFields ucs ucDeviceID replies fields s := by
  rw [updateFields, if_neg h]

theorem updateFields_read (h : (s.pDio i).bType = 0) {xRet : Ret} {sent : Bool} {frame : List UInt8}
    (hread : mbGetReg ucs ucDeviceID (replies i) = (xRet, sent, some frame)) :
    updateFields ucs ucDeviceID replies (i :: fields) s =
      (let turns := updateFields ucs ucDeviceID replies fields (storeField i frame s)
       (turns.1, turns.2.1, ⟨readRequest ucDeviceID (dataRegister i), [(i, frame)]⟩ :: turns.2.2)) := by
  rw [updateFields, if_pos h, hread]

theorem updateFields_fail (h : (s.pDio i).bType = 0) {xRet : Ret} {sent : Bool}
    (hread : mbGetReg ucs ucDeviceID (replies i) = (xRet, sent, none)) :
    updateFields ucs ucDeviceID replies (i :: fields) s =
      (xRet, s, if sent then [⟨readRequest ucDeviceID (dataRegister i), []⟩] else []) := by
  rw [updateFields, if_pos h, hread]

end Turns

/-- The exchanges of the loop: reads of the data registers, and the frames taken for their
responses. -/
theorem mem_updateFields {fields : List Nat} {e : Exchange}
    (h : e ∈ (updateFields ucs ucDeviceID replies fields s).2.2) :
    ∃ i, e.pSendData = readRequest ucDeviceID (dataRegister i) ∧
      ∀ st ∈ e.stores, ∃ pRecvBuff, responseFrame ucDeviceID 1 pRecvBuff = some st.2 := by
  induction fields generalizing s with
  | nil => cases h
  | cons i fields ih =>
    by_cases hinput : (s.pDio i).bType = 0
    · rcases hread : mbGetReg ucs ucDeviceID (replies i) with ⟨xRet, sent, _ | frame⟩
      · rw [updateFields_fail hinput hread] at h
        cases sent with
        | false => cases h
        | true =>
          obtain rfl := List.mem_singleton.mp h
          exact ⟨i, rfl, fun st hst => (nomatch hst)⟩
      · rw [updateFields_read hinput hread] at h
        obtain rfl | h := List.mem_cons.mp h
        · refine ⟨i, rfl, fun st hst => ?_⟩
          obtain rfl := List.mem_singleton.mp hst
          exact (mbGetReg_frame hread).2
        · exact ih h
    · rw [updateFields_skip hinput] at h
      exact ih h

/-- What is not stored stays. -/
theorem updateFields_frame {fields : List Nat} {j : Nat}
    (h : ∀ e ∈ (updateFields ucs ucDeviceID replies fields s).2.2, ∀ st ∈ e.stores, st.1 ≠ j) :
    ((updateFields ucs ucDeviceID replies fields s).2.1.pValue j,
      (updateFields ucs ucDeviceID replies fields s).2.1.pDio j) = (s.pValue j, s.pDio j) := by
  induction fields generalizing s with
  | nil => rfl
  | cons i fields ih =>
    by_cases hinput : (s.pDio i).bType = 0
    · rcases hread : mbGetReg ucs ucDeviceID (replies i) with ⟨xRet, sent, _ | frame⟩
      · rw [updateFields_fail hinput hread]
      · rw [updateFields_read hinput hread] at h ⊢
        have hne : j ≠ i := (h _ List.mem_cons_self _ (List.mem_singleton_self _)).symm
        have hrest := ih fun e he => h e (List.mem_cons_of_mem _ he)
        simp only [storeField, Function.update_of_ne hne] at hrest ⊢
        exact hrest
    · rw [updateFields_skip hinput] at h ⊢
      exact ih h

theorem updateFields_nil_iff {fields : List Nat} :
    (updateFields ucs ucDeviceID replies fields s).2.2 = [] ↔
      ¬ (ucs = true ∧ ∃ i, fields.find? (fun i => (s.pDio i).bType = 0) = some i ∧
        (replies i).isSome) := by
  induction fields with
  | nil => simp [updateFields]
  | cons i fields ih =>
    by_cases hinput : (s.pDio i).bType = 0
    · have hsent := @mbGetReg_sent ucs ucDeviceID (replies i)
      simp only [List.find?_cons_of_pos (p := fun i => decide ((s.pDio i).bType = 0))
        (decide_eq_true hinput), Option.some.injEq, exists_eq_left', ← hsent]
      rcases hread : mbGetReg ucs ucDeviceID (replies i) with ⟨xRet, sent, _ | frame⟩
      · rw [updateFields_fail hinput hread]
        cases sent <;> simp
      · rw [updateFields_read hinput hread]
        simp [(mbGetReg_frame hread).1]
    · rw [updateFields_skip hinput, List.find?_cons_of_neg (by simpa using hinput), ih]

theorem directed_withCrc {id function : UInt8} {data : List UInt8} {stores : List (Nat × List UInt8)} :
    Exchange.Directed nSensorID ⟨withCrc crc16 (id :: function :: data), stores⟩ ↔
      id.toNat = nSensorID.toNat ∧ ∀ st ∈ stores, Framed nSensorID function st.2 := by
  have htake : (withCrc crc16 (id :: function :: data)).take (data.length + 2) =
      id :: function :: data := List.take_left' rfl
  refine directed_iff (n := data.length) ?_ ?_ rfl
  · simp only [withCrc, List.length_append, List.length_cons, List.length_nil]
  · rw [htake]

theorem toUInt8_toNat (h : nSensorID.toNat < 256) : nSensorID.toUInt8.toNat = nSensorID.toNat := by
  rw [UInt32.toNat_toUInt8]
  exact Nat.mod_eq_of_lt h

theorem directed_nodeUpdate :
    (∀ e ∈ (update nSensorID s ucs replies).2.2, e.Directed nSensorID) ↔
      nSensorID.toNat < 256 ∨ ¬ UnitOperation.Asks s ucs replies := by
  rw [UnitOperation.Asks, ← @updateFields_nil_iff ucs nSensorID.toUInt8, ← update]
  constructor
  · intro h
    cases hexchanges : (update nSensorID s ucs replies).2.2 with
    | nil => exact .inr rfl
    | cons e es =>
      left
      have he : e ∈ (update nSensorID s ucs replies).2.2 := hexchanges ▸ List.mem_cons_self
      obtain ⟨function, ⟨id, data, crcLo, crcHi, hid, -⟩, -⟩ := h e he
      have := id.toNat_lt
      omega
  · rintro (hsmall | hnil) e he
    · obtain ⟨i, hrequest, hstores⟩ := mem_updateFields he
      have hid := toUInt8_toNat hsmall
      obtain ⟨pSendData, stores⟩ := e
      obtain rfl : pSendData = _ := hrequest
      refine directed_withCrc.mpr ⟨hid, fun st hst => ?_⟩
      obtain ⟨pRecvBuff, hframe⟩ := hstores st hst
      exact framed_responseFrame hid hframe
    · rw [hnil] at he
      cases he

theorem stored_nodeUpdate {i : Nat} (h : ((update nSensorID s ucs replies).2.1.pValue i,
    (update nSensorID s ucs replies).2.1.pDio i) ≠ (s.pValue i, s.pDio i)) :
    ∃ e ∈ (update nSensorID s ucs replies).2.2, ∃ st ∈ e.stores, st.1 = i := by
  by_contra hno
  exact h (updateFields_frame fun e he st hst heq => hno ⟨e, he, st, hst, heq⟩)

theorem htons_inj {a b : UInt16} (h : htons a = htons b) : a = b := by
  rw [htons, htons, List.cons.injEq, List.cons.injEq] at h
  rw [← ntohs_htons a, ← ntohs_htons b, h.1, h.2.1]

/-- A write names a register among the first seven. -/
theorem set_names {ulIndex bValue : UInt32} {pRcvd : List UInt8} (h : ulIndex.toNat < dioMax) :
    ∃ e ∈ (set s ulIndex bValue pRcvd).2.2,
      (e.pSendData.drop 2).take 2 ≠ htons (dataRegister ulIndex.toNat) := by
  have hne : htons ulIndex.toUInt16 ≠ htons (dataRegister ulIndex.toNat) := by
    intro heq
    have hsame := congrArg UInt16.toNat (htons_inj heq)
    rw [dataRegister, UInt32.toNat_toUInt16, UInt16.toNat_ofNat'] at hsame
    unfold dioMax at h
    omega
  rw [DioNode.set, if_pos h]
  dsimp only
  split
  · exact ⟨_, List.mem_singleton_self _, hne⟩
  · exact ⟨_, List.mem_singleton_self _, hne⟩

end Node

section Results

open UnitOperation

/-- The requests and what is stored out of their replies are the unit's exactly where the gauge has the
ID 2 and gets the replies it waits for, the node is not written, and its ID fits into a byte. -/
theorem unitOperation_keeps_iff (nSensorID : UInt32) (op : UnitOperation) :
    op.Keeps nSensorID ↔ op.Right nSensorID := by
  cases op with
  | gaugeUpdate s r =>
    rw [← directed_update]
    exact ⟨Keeps.directed, fun h => ⟨h, fun _ _ => trivial, fun i hi => stored_update hi⟩⟩
  | gaugeReset s xRequestTime pRcvd =>
    rw [Right, ← @directed_reset nSensorID s xRequestTime]
    constructor
    · exact fun h => h.directed _ (List.mem_singleton_self _)
    · refine fun h => ⟨?_, fun _ _ => trivial, fun i hi => ?_⟩
      · rintro e he
        obtain rfl := List.mem_singleton.mp he
        exact h
      · exact ⟨_, List.mem_singleton_self _, stored_reset hi⟩
  | nodeSet s ulIndex bValue pRcvd =>
    rw [Right]
    constructor
    · intro h
      by_contra hlt
      obtain ⟨e, he, hne⟩ := @set_names s ulIndex bValue pRcvd (Nat.lt_of_not_le hlt)
      exact hne (h.names e he)
    · intro hle
      have hset : DioNode.set s ulIndex bValue pRcvd = (retError, s, []) := by
        rw [DioNode.set, if_neg (Nat.not_lt.mpr hle)]
      refine ⟨?_, ?_, ?_⟩
      · simp [exchanges, hset]
      · simp [exchanges, hset]
      · simp [Changes, hset]
  | nodeUpdate s ucs replies =>
    rw [Right, ← directed_nodeUpdate]
    exact ⟨Keeps.directed, fun h => ⟨h, fun _ _ => trivial, fun i hi => stored_nodeUpdate hi⟩⟩

/-- A write of the output 3 of the node 1 goes to the register 3, not to 40003. -/
theorem nodeSet_register :
    ¬ ∀ (nSensorID : UInt32) (op : UnitOperation), op.Keeps nSensorID := by
  intro h
  let node : DioNode.Status := ⟨fun _ => ⟨.dio, true, 0, 0⟩, fun _ => ⟨0, 1⟩⟩
  have hlt : UInt32.toNat 3 < DioNode.dioMax := by decide
  obtain ⟨e, he, hne⟩ := @set_names node 3 1 [] hlt
  exact hne ((h 1 (.nodeSet node 3 1 [])).names e he)

end Results

end EdgeNode.Obj
