import EdgeNode.Lib.ByteLoops
import EdgeNode.Lib.CrcDivision
import EdgeNode.Types

/-! The check of what a DS18B20 sends. -/

namespace EdgeNode.Obj.Ds18b20

open ByteLoops Crc ShiftRegisters Polynomial

/-- The loop of `_FTE_DS18B20_crc` over the bits of a byte. -/
def crcBits : Nat → UInt8 → UInt8 → UInt8
  | 0, nSeed, _ => nSeed
  | nBitsLeft + 1, nSeed, nData =>
    let temp := (nSeed ^^^ nData) &&& 0x01
    let nSeed := if temp = 0 then nSeed >>> 1 else ((nSeed ^^^ 0x18) >>> 1) ||| 0x80
    crcBits nBitsLeft nSeed (nData >>> 1)

/-- `_FTE_DS18B20_crc`. -/
def crc (pData : List UInt8) (nSeed : UInt8) : UInt8 :=
  pData.foldl (fun nSeed nData => crcBits 8 nSeed nData) nSeed

def maxValue : Int32 := 12500
def minValue : Int32 := -5500

/-- `_FTE_DS18B20_get_temperature` on the nine bytes that it reads. -/
def getTemperature (pValues : List UInt8) : Ret × Option Int32 :=
  if pValues.getD 7 0 = 0xFF ∨ crc pValues 0 ≠ 0 then (retError, none)
  else
    let nValue := (ntohs (pValues.getD 1 0) (pValues.getD 0 0)).toInt16.toInt32 * 625 / 100
    (retOk, some (if maxValue ≤ nValue then maxValue else if nValue ≤ minValue then minValue
      else nValue))

/-- The polynomial of the check, the low bit first. -/
def dallasPoly : BitVec 8 := 0x8C

/-- The bits in the order in which the line carries them, the low one of each byte first. -/
def serial (pData : List UInt8) : List Bool := bits (pData.map UInt8.toBitVec)

/-- The check as a remainder, with the seed in front of the data. -/
noncomputable def dallasCrc (pData : List UInt8) (nSeed : UInt8) : (ZMod 2)[X] :=
  (polynomial (wordBits nSeed.toBitVec) * X ^ (8 * pData.length) +
    polynomial (serial pData) * X ^ 8) %ₘ (X ^ 8 + X ^ 5 + X ^ 4 + 1)

theorem generator_dallasPoly : generator dallasPoly = X ^ 8 + X ^ 5 + X ^ 4 + 1 := by
  have hbits : wordBits dallasPoly = [false, false, true, true, false, false, false, true] := by
    decide
  simp [generator, hbits, polynomial, add_assoc]

theorem low_xor (nSeed nData : UInt8) : (nSeed ^^^ nData) &&& 0x01 = 0 ↔
    (nSeed.toBitVec.getLsbD 0 ^^ nData.toBitVec.getLsbD 0) = false := by
  have hone (x : BitVec 8) : x &&& 1#8 = 0#8 ↔ x.getLsbD 0 = false := by
    revert x
    decide +kernel
  rw [← UInt8.toBitVec_inj, ← BitVec.getLsbD_xor]
  exact hone _

/-- A turn of the loop over the bits takes in the low one. -/
theorem shiftIn_eq (nSeed nData : UInt8) :
    (if (nSeed ^^^ nData) &&& 0x01 = 0 then nSeed >>> 1
      else ((nSeed ^^^ 0x18) >>> 1) ||| 0x80).toBitVec =
      bit dallasPoly nSeed.toBitVec (nData.toBitVec.getLsbD 0) := by
  have hturn : ∀ (x : BitVec 8) (b : Bool), bit dallasPoly x b =
      if (x.getLsbD 0 ^^ b) = false then x >>> 1 else ((x ^^^ 0x18#8) >>> 1) ||| 0x80#8 := by
    decide +kernel
  rw [hturn]
  by_cases h : (nSeed ^^^ nData) &&& 0x01 = 0
  · rw [if_pos h, if_pos ((low_xor nSeed nData).mp h)]
    rfl
  · rw [if_neg h, if_neg (mt (low_xor nSeed nData).mpr h)]
    rfl

theorem crcBits_eq (nBitsLeft : Nat) (nSeed nData : UInt8) :
    (crcBits nBitsLeft nSeed nData).toBitVec =
      feed dallasPoly nSeed.toBitVec ((List.range nBitsLeft).map nData.toBitVec.getLsbD) := by
  induction nBitsLeft generalizing nSeed nData with
  | zero => rfl
  | succ n ih =>
    have hshift : (nData >>> 1).toBitVec.getLsbD = fun i => nData.toBitVec.getLsbD (i + 1) := by
      funext i
      have hshr : (nData >>> 1).toBitVec = nData.toBitVec >>> 1 := rfl
      rw [hshr, BitVec.getLsbD_ushiftRight, Nat.add_comm]
    rw [crcBits, ih, shiftIn_eq, hshift, List.range_succ_eq_map, List.map_cons, List.map_map]
    rfl

theorem crc_eq_feed (pData : List UInt8) (nSeed : UInt8) :
    (crc pData nSeed).toBitVec = feed dallasPoly nSeed.toBitVec (serial pData) := by
  induction pData generalizing nSeed with
  | nil => rfl
  | cons nData pData ih =>
    have hcons : crc (nData :: pData) nSeed = crc pData (crcBits 8 nSeed nData) := rfl
    rw [hcons, ih, crcBits_eq, serial, serial, List.map_cons, bits, feed_append]
    rfl

/-- The loop with its counter, over what the counter can reach. -/
theorem crc_loop {pData : List UInt8} (h : pData.length < 2 ^ 31) (nSeed : UInt8) :
    forUp (crcBits 8) pData (UInt32.ofNat pData.length) (pData.length + 1) 0 nSeed =
      some (crc pData nSeed) :=
  forUp_length (crcBits 8) h (Nat.lt_succ_self _) nSeed

theorem crc_append (pData rest : List UInt8) (nSeed : UInt8) :
    crc (pData ++ rest) nSeed = crc rest (crc pData nSeed) := List.foldl_append

theorem crc_own (pData : List UInt8) (nSeed : UInt8) :
    crc (pData ++ [crc pData nSeed]) nSeed = 0 := by
  have hself (x : UInt8) : (crc [x] x).toBitVec = 0#8 := by
    have hbyte : byte dallasPoly x.toBitVec (x.toBitVec.setWidth 8) = x.toBitVec >>> 8 :=
      byte_self (Nat.le_refl 8) x.toBitVec
    rw [BitVec.setWidth_eq, byte_eq_feed (Nat.le_refl 8)] at hbyte
    rw [crc_eq_feed, serial, List.map_cons, List.map_nil, bits, bits, List.append_nil, hbyte]
    exact BitVec.ushiftRight_eq_zero (Nat.le_refl 8)
  rw [crc_append, ← UInt8.toBitVec_inj, hself]
  rfl

/-- A text that is altered in a burst of eight bits has another check. -/
theorem crc_ne {pData altered : List UInt8} (h : Burst 8 (serial pData) (serial altered))
    (nSeed : UInt8) : crc pData nSeed ≠ crc altered nSeed := by
  rw [Ne, ← UInt8.toBitVec_inj, crc_eq_feed, crc_eq_feed]
  exact h.feed_ne (by decide) _

/-- The check is the one byte whose bits are the remainder. -/
theorem eq_crc_iff (pData : List UInt8) (nSeed x : UInt8) :
    x = crc pData nSeed ↔ polynomial (wordBits x.toBitVec) = dallasCrc pData nSeed := by
  have hlength : (serial pData).length = 8 * pData.length := by
    rw [serial, bits_length, List.length_map, Nat.mul_comm]
  have hcrc : polynomial (wordBits (crc pData nSeed).toBitVec) = dallasCrc pData nSeed := by
    rw [crc_eq_feed, polynomial_feed (by decide), generator_dallasPoly, hlength]
    rfl
  rw [← hcrc, ← UInt8.toBitVec_inj]
  exact (polynomial_wordBits_injective.eq_iff (a := x.toBitVec)).symm

theorem crc_detects (pData : List UInt8) (nSeed : UInt8) :
    (∀ x, x = crc pData nSeed ↔ polynomial (wordBits x.toBitVec) = dallasCrc pData nSeed) ∧
      crc (pData ++ [crc pData nSeed]) nSeed = 0 ∧
      ∀ altered, Flipped (serial (pData ++ [crc pData nSeed])) (serial altered) ∨
        Burst 8 (serial (pData ++ [crc pData nSeed])) (serial altered) → crc altered nSeed ≠ 0 := by
  refine ⟨eq_crc_iff pData nSeed, crc_own pData nSeed, fun altered h => ?_⟩
  have hburst : Burst 8 (serial (pData ++ [crc pData nSeed])) (serial altered) :=
    h.elim (Flipped.burst (by decide)) id
  have hne := crc_ne hburst nSeed
  rw [crc_own] at hne
  exact hne.symm

/-- A ROM code with its check. -/
example : crc [0x02, 0x1C, 0xB8, 0x01, 0x00, 0x00, 0x00, 0xA2] 0 = 0 := by decide +kernel

/-- No temperature is taken from what a sensor sent and a burst altered. -/
theorem getTemperature_altered {pData altered : List UInt8}
    (h : Burst 8 (serial (pData ++ [crc pData 0])) (serial altered)) :
    getTemperature altered = (retError, none) := by
  have hne := crc_ne h 0
  rw [crc_own] at hne
  exact if_pos (Or.inr hne.symm)

end EdgeNode.Obj.Ds18b20
