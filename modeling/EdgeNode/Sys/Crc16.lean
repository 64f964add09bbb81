import EdgeNode.Lib.ByteLoops
import EdgeNode.Lib.Crc

/-! `FTE_CRC16`, the check of serial Modbus. -/

namespace EdgeNode.Sys

open ByteLoops

def pCRC16Table : List UInt16 := [
  0x0000, 0xC0C1, 0xC181, 0x0140, 0xC301, 0x03C0, 0x0280, 0xC241,
  0xC601, 0x06C0, 0x0780, 0xC741, 0x0500, 0xC5C1, 0xC481, 0x0440,
  0xCC01, 0x0CC0, 0x0D80, 0xCD41, 0x0F00, 0xCFC1, 0xCE81, 0x0E40,
  0x0A00, 0xCAC1, 0xCB81, 0x0B40, 0xC901, 0x09C0, 0x0880, 0xC841,
  0xD801, 0x18C0, 0x1980, 0xD941, 0x1B00, 0xDBC1, 0xDA81, 0x1A40,
  0x1E00, 0xDEC1, 0xDF81, 0x1F40, 0xDD01, 0x1DC0, 0x1C80, 0xDC41,
  0x1400, 0xD4C1, 0xD581, 0x1540, 0xD701, 0x17C0, 0x1680, 0xD641,
  0xD201, 0x12C0, 0x1380, 0xD341, 0x1100, 0xD1C1, 0xD081, 0x1040,
  0xF001, 0x30C0, 0x3180, 0xF141, 0x3300, 0xF3C1, 0xF281, 0x3240,
  0x3600, 0xF6C1, 0xF781, 0x3740, 0xF501, 0x35C0, 0x3480, 0xF441,
  0x3C00, 0xFCC1, 0xFD81, 0x3D40, 0xFF01, 0x3FC0, 0x3E80, 0xFE41,
  0xFA01, 0x3AC0, 0x3B80, 0xFB41, 0x3900, 0xF9C1, 0xF881, 0x3840,
  0x2800, 0xE8C1, 0xE981, 0x2940, 0xEB01, 0x2BC0, 0x2A80, 0xEA41,
  0xEE01, 0x2EC0, 0x2F80, 0xEF41, 0x2D00, 0xEDC1, 0xEC81, 0x2C40,
  0xE401, 0x24C0, 0x2580, 0xE541, 0x2700, 0xE7C1, 0xE681, 0x2640,
  0x2200, 0xE2C1, 0xE381, 0x2340, 0xE101, 0x21C0, 0x2080, 0xE041,
  0xA001, 0x60C0, 0x6180, 0xA141, 0x6300, 0xA3C1, 0xA281, 0x6240,
  0x6600, 0xA6C1, 0xA781, 0x6740, 0xA501, 0x65C0, 0x6480, 0xA441,
  0x6C00, 0xACC1, 0xAD81, 0x6D40, 0xAF01, 0x6FC0, 0x6E80, 0xAE41,
  0xAA01, 0x6AC0, 0x6B80, 0xAB41, 0x6900, 0xA9C1, 0xA881, 0x6840,
  0x7800, 0xB8C1, 0xB981, 0x7940, 0xBB01, 0x7BC0, 0x7A80, 0xBA41,
  0xBE01, 0x7EC0, 0x7F80, 0xBF41, 0x7D00, 0xBDC1, 0xBC81, 0x7C40,
  0xB401, 0x74C0, 0x7580, 0xB541, 0x7700, 0xB7C1, 0xB681, 0x7640,
  0x7200, 0xB2C1, 0xB381, 0x7340, 0xB101, 0x71C0, 0x7080, 0xB041,
  0x5000, 0x90C1, 0x9181, 0x5140, 0x9301, 0x53C0, 0x5280, 0x9241,
  0x9601, 0x56C0, 0x5780, 0x9741, 0x5500, 0x95C1, 0x9481, 0x5440,
  0x9C01, 0x5CC0, 0x5D80, 0x9D41, 0x5F00, 0x9FC1, 0x9E81, 0x5E40,
  0x5A00, 0x9AC1, 0x9B81, 0x5B40, 0x9901, 0x59C0, 0x5880, 0x9841,
  0x8801, 0x48C0, 0x4980, 0x8941, 0x4B00, 0x8BC1, 0x8A81, 0x4A40,
  0x4E00, 0x8EC1, 0x8F81, 0x4F40, 0x8D01, 0x4DC0, 0x4C80, 0x8C41,
  0x4400, 0x84C1, 0x8581, 0x4540, 0x8701, 0x47C0, 0x4680, 0x8641,
  0x8201, 0x42C0, 0x4380, 0x8341, 0x4100, 0x81C1, 0x8081, 0x4040
]

/-- A turn of the loop of `FTE_CRC16`. -/
def crc16Byte (uiCRC : UInt16) (data : UInt8) : UInt16 :=
  let uiTemp := data ^^^ uiCRC.toUInt8
  (uiCRC >>> 8) ^^^ pCRC16Table.getD uiTemp.toNat 0

def crc16 (pData : List UInt8) : UInt16 := pData.foldl crc16Byte 0xFFFF

/-- The polynomial of Modbus, the low bit first. -/
def modbusPoly : BitVec 16 := 0xA001

/-- The check as Modbus states it, a bit at a time. -/
def modbusCrc (pData : List UInt8) : BitVec 16 :=
  (pData.map UInt8.toBitVec).foldl (Crc.byte modbusPoly) 0xFFFF

theorem pCRC16Table_eq (b : BitVec 8) :
    (pCRC16Table.getD b.toNat 0).toBitVec = Crc.entry modbusPoly b :=
  Crc.getD_table (f := UInt16.toBitVec) (g := Crc.entry modbusPoly) (by decide +kernel) b 0

theorem crc16Byte_eq (uiCRC : UInt16) (data : UInt8) :
    (crc16Byte uiCRC data).toBitVec = Crc.byte modbusPoly uiCRC.toBitVec data.toBitVec := by
  rw [Crc.byte_eq_entry (by decide), ← pCRC16Table_eq]
  rfl

theorem crc16_eq (pData : List UInt8) : (crc16 pData).toBitVec = modbusCrc pData := by
  rw [modbusCrc, List.foldl_map]
  exact (List.foldl_hom UInt16.toBitVec fun uiCRC data => (crc16Byte_eq uiCRC data).symm).symm

/-- The loop with its counter, over what the counter can reach. -/
theorem crc16_loop {pData : List UInt8} (h : pData.length < 2 ^ 31) :
    forUp crc16Byte pData (UInt32.ofNat pData.length) (pData.length + 1) 0 0xFFFF =
      some (crc16 pData) :=
  forUp_length crc16Byte h (Nat.lt_succ_self _) 0xFFFF

/-- The bytes of a check on the wire, the low one first. -/
def crcBytes (uiCRC : UInt16) : List UInt8 :=
  [(uiCRC &&& 0xFF).toUInt8, ((uiCRC >>> 8) &&& 0xFF).toUInt8]

theorem toUInt8_low (uiCRC : UInt16) : (uiCRC &&& 0xFF).toUInt8 = uiCRC.toUInt8 := by
  rw [← UInt8.toBitVec_inj, UInt16.toBitVec_toUInt8, UInt16.toBitVec_toUInt8]
  apply BitVec.eq_of_toNat_eq
  rw [BitVec.toNat_setWidth, BitVec.toNat_setWidth]
  have hand : (uiCRC &&& 0xFF).toNat = uiCRC.toNat % 2 ^ 8 :=
    Nat.and_two_pow_sub_one_eq_mod uiCRC.toNat 8
  exact (congrArg (· % 2 ^ 8) hand).trans (Nat.mod_mod uiCRC.toNat (2 ^ 8))

/-- The low byte of the register is taken out of it. -/
theorem crc16Byte_self (uiCRC : UInt16) :
    crc16Byte uiCRC (uiCRC &&& 0xFF).toUInt8 = uiCRC >>> 8 := by
  rw [toUInt8_low, ← UInt16.toBitVec_inj, crc16Byte_eq, UInt16.toBitVec_toUInt8,
    Crc.byte_self (by decide)]
  rfl

theorem crc16_crcBytes (pData : List UInt8) : crc16 (pData ++ crcBytes (crc16 pData)) = 0 := by
  have happend : crc16 (pData ++ crcBytes (crc16 pData)) =
      (crcBytes (crc16 pData)).foldl crc16Byte (crc16 pData) := List.foldl_append
  rw [happend]
  generalize crc16 pData = uiCRC
  rw [crcBytes, List.foldl_cons, crc16Byte_self, List.foldl_cons, crc16Byte_self, List.foldl_nil]
  apply UInt16.toNat_inj.mp
  rw [UInt16.toNat_shiftRight, UInt16.toNat_shiftRight]
  change uiCRC.toNat >>> 8 >>> 8 = 0
  rw [← Nat.shiftRight_add, Nat.shiftRight_eq_div_pow]
  exact Nat.div_eq_of_lt uiCRC.toNat_lt

theorem crc16_checks (pData : List UInt8) : (crc16 pData).toBitVec = modbusCrc pData ∧
    crc16 (pData ++ crcBytes (crc16 pData)) = 0 :=
  ⟨crc16_eq pData, crc16_crcBytes pData⟩

end EdgeNode.Sys
