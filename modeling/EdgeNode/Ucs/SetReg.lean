import EdgeNode.Ucs.GetRegs

/-! `FTE_UCS_MODBUS_setReg` on what was received: the frames it takes for the echo of its write. -/

namespace EdgeNode.Ucs

open LockRuns Sys

section Echoes

/-- The bytes of a write that its check is taken over. -/
def writeRequest (ucDeviceID : UInt8) (usAddr usValue : UInt16) : List UInt8 :=
  [ucDeviceID, 0x06] ++ htons usAddr ++ htons usValue

/-- What `FTE_UCS_MODBUS_setReg` returns for the bytes received. -/
def setRegOf (ucDeviceID : UInt8) (pRecvBuff : List UInt8) : Ret :=
  if pRecvBuff.length < 8 then retError
  else if (findFrame crc16 [ucDeviceID.toNat, 0x06] 8 pRecvBuff).isSome then retOk else retError

/-- The echo of a write stands at `offset`: its bytes and the check of them, the low byte first. -/
def EchoAt (ucDeviceID : UInt8) (usAddr usValue : UInt16) (pRecvBuff : List UInt8) (offset : Nat) :
    Prop :=
  ∃ before crcLo crcHi behind,
    pRecvBuff = before ++ (writeRequest ucDeviceID usAddr usValue ++ [crcLo, crcHi]) ++ behind ∧
    before.length = offset ∧
    (crcHi.toBitVec ++ crcLo.toBitVec : BitVec 16) =
      modbusCrc (writeRequest ucDeviceID usAddr usValue)

/-- The echo of a write of the device that is not this one stands somewhere. -/
def Foreign (ucDeviceID : UInt8) (usAddr usValue : UInt16) (pRecvBuff : List UInt8) : Prop :=
  ∃ offset addr value, (addr, value) ≠ (usAddr, usValue) ∧
    EchoAt ucDeviceID addr value pRecvBuff offset

end Echoes

variable {ucDeviceID : UInt8} {usAddr usValue : UInt16} {pRecvBuff : List UInt8}

theorem htons_ntohs (hi lo : UInt8) : htons (ntohs hi lo) = [hi, lo] := by
  have hh := hi.toNat_lt
  have hl := lo.toNat_lt
  have hlo : (hi.toNat * 256 + lo.toNat) % 256 = lo.toNat := by omega
  have hhi : (hi.toNat * 256 + lo.toNat) / 256 = hi.toNat := by omega
  rw [htons, ntohs_toNat, hhi, UInt8.ofNat_toNat]
  simp only [List.cons.injEq, true_and, and_true, ← UInt8.toNat_inj, UInt8.toNat_ofNat']
  exact hlo

@[simp] theorem writeRequest_length : (writeRequest ucDeviceID usAddr usValue).length = 6 := rfl

theorem EchoAt.le {offset : Nat} (h : EchoAt ucDeviceID usAddr usValue pRecvBuff offset) :
    offset + 8 ≤ pRecvBuff.length := by
  obtain ⟨before, crcLo, crcHi, behind, rfl, rfl, -⟩ := h
  simp only [List.length_append, writeRequest_length, List.length_cons, List.length_nil]
  omega

/-- The test of a turn of the loop, on the eight bytes it looks at: the address and the value may be
any. -/
theorem test_iff {frame : List UInt8} (h : frame.length = 8) :
    ([ucDeviceID.toNat, 0x06].isPrefixOf (frame.map UInt8.toNat) &&
      decide (frame = withCrc crc16 (frame.take 6))) = true ↔
      ∃ addr value crcLo crcHi, frame = writeRequest ucDeviceID addr value ++ [crcLo, crcHi] ∧
        (crcHi.toBitVec ++ crcLo.toBitVec : BitVec 16) =
          modbusCrc (writeRequest ucDeviceID addr value) := by
  have hcrc {bytes : List UInt8} {crcLo crcHi : UInt8} :
      bytes ++ [crcLo, crcHi] = withCrc crc16 bytes ↔
        (crcHi.toBitVec ++ crcLo.toBitVec : BitVec 16) = modbusCrc bytes := by
    rw [withCrc_inj, ← UInt16.toBitVec_inj, crc16_eq, word_eq, eq_comm]
  have hsix : (6 : UInt8).toNat = 6 := rfl
  constructor
  · match frame, h with
    | [id, function, addrHi, addrLo, valueHi, valueLo, crcLo, crcHi], _ =>
      intro htest
      simp only [Bool.and_eq_true, decide_eq_true_eq, List.map_cons, List.isPrefixOf_iff_prefix,
        List.cons_prefix_cons, ← hsix, UInt8.toNat_inj] at htest
      obtain ⟨⟨rfl, rfl, -⟩, htest⟩ := htest
      refine ⟨ntohs addrHi addrLo, ntohs valueHi valueLo, crcLo, crcHi, ?_, ?_⟩
      · rw [writeRequest, htons_ntohs, htons_ntohs]
        rfl
      · rw [writeRequest, htons_ntohs, htons_ntohs]
        exact hcrc.mp htest
  · rintro ⟨addr, value, crcLo, crcHi, rfl, hvalid⟩
    rw [List.take_left' writeRequest_length, Bool.and_eq_true, decide_eq_true_eq]
    refine ⟨?_, hcrc.mpr hvalid⟩
    rw [List.isPrefixOf_iff_prefix]
    exact ⟨_, rfl⟩

/-- The loop stops at a frame exactly when the echo of some write of the device is there. -/
theorem setRegOf_ok_iff :
    setRegOf ucDeviceID pRecvBuff = retOk ↔
      ∃ offset addr value, EchoAt ucDeviceID addr value pRecvBuff offset := by
  rcases Nat.lt_or_ge pRecvBuff.length 8 with hlt | hle
  · rw [setRegOf, if_pos hlt]
    refine iff_of_false (by decide) ?_
    rintro ⟨offset, addr, value, h⟩
    have := h.le
    omega
  · have hfind : setRegOf ucDeviceID pRecvBuff = retOk ↔
        (findFrame crc16 [ucDeviceID.toNat, 0x06] 8 pRecvBuff).isSome = true := by
      rw [setRegOf, if_neg (Nat.not_lt.mpr hle)]
      split
      · exact iff_of_true rfl ‹_›
      · exact iff_of_false (by decide) ‹_›
    rw [hfind, findFrame, List.find?_isSome]
    constructor
    · rintro ⟨frame, hmem, htest⟩
      obtain ⟨i, hi, rfl⟩ := List.mem_map.mp hmem
      rw [List.mem_range] at hi
      have hlen : ((pRecvBuff.drop i).take 8).length = 8 := by
        rw [List.length_take, List.length_drop]
        omega
      obtain ⟨addr, value, crcLo, crcHi, hframe, hvalid⟩ := (test_iff hlen).mp htest
      refine ⟨i, addr, value, pRecvBuff.take i, crcLo, crcHi, (pRecvBuff.drop i).drop 8, ?_, ?_,
        hvalid⟩
      · rw [← hframe, List.append_assoc, List.take_append_drop, List.take_append_drop]
      · rw [List.length_take]
        omega
    · rintro ⟨offset, addr, value, h⟩
      have hoff := h.le
      obtain ⟨before, crcLo, crcHi, behind, rfl, rfl, hvalid⟩ := h
      have hlen : (writeRequest ucDeviceID addr value ++ [crcLo, crcHi]).length = 8 := rfl
      refine ⟨writeRequest ucDeviceID addr value ++ [crcLo, crcHi], ?_,
        (test_iff hlen).mpr ⟨addr, value, crcLo, crcHi, rfl, hvalid⟩⟩
      rw [List.mem_map]
      refine ⟨before.length, List.mem_range.mpr (by omega), ?_⟩
      rw [List.append_assoc, List.drop_left, List.take_left' hlen]

/-- The operation answers what `setRegOf` says of the bytes received. -/
theorem modbusSetReg_eq (pUCS : FteUcs) (nTimeout : UInt32) (arrivals : List Arrival) :
    modbusSetReg crc16 pUCS ucDeviceID usAddr usValue nTimeout arrivals = (do
      let (pRecvBuff, pUCS) ← sendAndRecv pUCS
        (withCrc crc16 (writeRequest ucDeviceID usAddr usValue)) 10 nTimeout arrivals
      pure (setRegOf ucDeviceID pRecvBuff, pUCS)) := by
  rw [modbusSetReg]
  congr 1
  funext received
  rcases received with ⟨pRecvBuff, pUCS⟩
  dsimp only
  rw [setRegOf]
  split
  · rfl
  · split <;> rfl

/-- A write is confirmed by its own echo only, exactly when no other write of the device is echoed in
what was received or the echo is there as well: the address and the value are not looked at. -/
theorem setRegOf_confirms_iff (ucDeviceID : UInt8) (usAddr usValue : UInt16)
    (pRecvBuff : List UInt8) :
    (setRegOf ucDeviceID pRecvBuff = retOk →
      ∃ offset, EchoAt ucDeviceID usAddr usValue pRecvBuff offset) ↔
    (Foreign ucDeviceID usAddr usValue pRecvBuff →
      ∃ offset, EchoAt ucDeviceID usAddr usValue pRecvBuff offset) := by
  rw [setRegOf_ok_iff]
  constructor
  · rintro h ⟨offset, addr, value, -, hecho⟩
    exact h ⟨offset, addr, value, hecho⟩
  · rintro h ⟨offset, addr, value, hecho⟩
    by_cases hsame : (addr, value) = (usAddr, usValue)
    · obtain ⟨rfl, rfl⟩ := Prod.mk.inj hsame
      exact ⟨offset, hecho⟩
    · exact h ⟨offset, addr, value, hsame, hecho⟩

/-- The echo of a write of 1 to the register 2 confirms the write of 5 to the register 7. -/
theorem setRegOf_foreign :
    ¬ ∀ (ucDeviceID : UInt8) (usAddr usValue : UInt16) (pRecvBuff : List UInt8),
      setRegOf ucDeviceID pRecvBuff = retOk →
        ∃ offset, EchoAt ucDeviceID usAddr usValue pRecvBuff offset := by
  intro h
  have hok : setRegOf 1 [0x01, 0x06, 0x00, 0x02, 0x00, 0x01, 0xE9, 0xCA] = retOk := by
    rw [setRegOf_ok_iff]
    exact ⟨0, 2, 1, [], 0xE9, 0xCA, [], rfl, rfl, by decide +kernel⟩
  obtain ⟨offset, hecho⟩ := h 1 7 5 _ hok
  have hoff := hecho.le
  obtain ⟨before, crcLo, crcHi, behind, heq, rfl, -⟩ := hecho
  simp only [List.length_cons, List.length_nil] at hoff
  obtain rfl : before = [] := List.length_eq_zero_iff.mp (by omega)
  have haddr : some (2 : UInt8) = some 7 := congrArg (fun l => l[3]?) heq
  exact absurd haddr (by decide)

end EdgeNode.Ucs
