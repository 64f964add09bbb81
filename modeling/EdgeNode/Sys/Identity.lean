import EdgeNode.Lib.CString
import EdgeNode.Sys.Crc32
import EdgeNode.Types

/-! The identity block of the board that the boot loader leaves in flash, and the functions that read
the device number and the hardware address out of it. -/

namespace EdgeNode.Sys

namespace Identity

/-- `FTE_BL_STATIC_PARAMS_ADDRESS`: the loader takes the first 56 kilobytes. -/
def staticParamsAddress : Nat := 0x0 + 56 * 1024

/-- `FTE_BL_PARAMS_SIGNATURE`, the text FTE SERIES. -/
def signature : List UInt8 := [0x46, 0x54, 0x45, 0x20, 0x53, 0x45, 0x52, 0x49, 0x45, 0x53]

def sizeofStaticParams : Nat := 88

def deviceId : Nat := 28

def deviceMac : Nat := 78

def oidSize : Nat := 32

def macSize : Nat := 6

section Block

variable (mem : Nat → UInt8) (pParams : Nat)

def bytes (offset size : Nat) : List UInt8 := (List.range size).map fun i => mem (pParams + offset + i)

/-- The field at the end of the block, the low byte first. -/
def ulCRC32 : UInt32 :=
  (mem (pParams + 84)).toUInt32 ||| ((mem (pParams + 85)).toUInt32 <<< 8) |||
    ((mem (pParams + 86)).toUInt32 <<< 16) ||| ((mem (pParams + 87)).toUInt32 <<< 24)

/-- `strcmp` with the signature: it stops in the field at the latest where that differs. -/
def signed : Bool := CString.textAt (bytes mem pParams 0 sizeofStaticParams) 0 = signature

def summed : Bool := ulCRC32 mem pParams = crc32 0 (bytes mem pParams 0 (sizeofStaticParams - 4))

end Block

/-- `FTE_SYS_BL_checkStaticParams` with the static pointer of the file. -/
def checkStaticParams (mem : Nat → UInt8) (pBLStaticParams : Nat) : Bool :=
  if pBLStaticParams = 0 then
    if ¬ signed mem staticParamsAddress ∨ ¬ summed mem staticParamsAddress then false else true
  else true

/-- What both getters do with a field of the block. -/
def getField (mem : Nat → UInt8) (pBLStaticParams offset size : Nat) (pBuff : List UInt8) :
    Ret × List UInt8 :=
  if checkStaticParams mem pBLStaticParams ≠ true then (retError, pBuff)
  else (retOk, bytes mem pBLStaticParams offset size ++ pBuff.drop size)

def getOID (mem : Nat → UInt8) (pBLStaticParams : Nat) (pOID : List UInt8) : Ret × List UInt8 :=
  getField mem pBLStaticParams deviceId oidSize pOID

def getMAC (mem : Nat → UInt8) (pBLStaticParams : Nat) (pMAC : List UInt8) : Ret × List UInt8 :=
  getField mem pBLStaticParams deviceMac macSize pMAC

/-- The initial value of the pointer, which no function of the file changes. -/
def pBLStaticParams : Nat := staticParamsAddress

/-- The signature and the check of the block are valid. -/
def Valid (mem : Nat → UInt8) : Prop :=
  signed mem staticParamsAddress ∧ summed mem staticParamsAddress

instance (mem : Nat → UInt8) : Decidable (Valid mem) := inferInstanceAs (Decidable (_ ∧ _))

/-- A getter succeeds on a valid block only, and otherwise leaves its buffer as it was. -/
structure Guards (mem : Nat → UInt8) (pBuff : List UInt8) (result : Ret × List UInt8) : Prop where
  succeeds : result.1 = retOk → Valid mem
  refuses : ¬ Valid mem → result.1 ≠ retOk ∧ result.2 = pBuff

variable {mem : Nat → UInt8} {offset size : Nat} {pBuff : List UInt8}

/-- The check is one of a pointer that is not set yet. -/
theorem checkStaticParams_null : checkStaticParams mem 0 = true ↔ Valid mem := by
  rw [checkStaticParams, if_pos rfl]
  by_cases h : Valid mem
  · have hpass : ¬ (¬ signed mem staticParamsAddress ∨ ¬ summed mem staticParamsAddress) := by
      rw [not_or, not_not, not_not]
      exact h
    rw [if_neg hpass]
    exact iff_of_true rfl h
  · have hfail : ¬ signed mem staticParamsAddress ∨ ¬ summed mem staticParamsAddress := by
      rw [← not_and_or]
      exact h
    rw [if_pos hfail]
    exact iff_of_false Bool.false_ne_true h

theorem checkStaticParams_set {p : Nat} (h : p ≠ 0) : checkStaticParams mem p = true := if_neg h

theorem pBLStaticParams_ne_zero : pBLStaticParams ≠ 0 := by decide

/-- The pointer is set before the first call, so every block is copied from. -/
theorem getField_eq : getField mem pBLStaticParams offset size pBuff =
    (retOk, bytes mem pBLStaticParams offset size ++ pBuff.drop size) := by
  rw [getField, checkStaticParams_set pBLStaticParams_ne_zero]
  exact if_neg (not_not_intro rfl)

theorem guards_getField_iff :
    Guards mem pBuff (getField mem pBLStaticParams offset size pBuff) ↔ Valid mem := by
  rw [getField_eq]
  constructor
  · exact fun h => h.succeeds rfl
  · exact fun h => ⟨fun _ => h, fun hno => absurd h hno⟩

/-- Both getters are right on the valid blocks only. -/
theorem getters_guard_iff (mem : Nat → UInt8) (pOID pMAC : List UInt8) :
    (Guards mem pOID (getOID mem pBLStaticParams pOID) ∧
      Guards mem pMAC (getMAC mem pBLStaticParams pMAC)) ↔ Valid mem := by
  rw [getOID, getMAC, guards_getField_iff, guards_getField_iff, and_self_iff]

/-- Erased flash. -/
def erased : Nat → UInt8 := fun _ => 0xFF

theorem erased_block_read :
    ¬ Guards erased (List.replicate 33 0) (getOID erased pBLStaticParams (List.replicate 33 0)) := by
  intro h
  have hvalid := h.succeeds (by decide +kernel)
  revert hvalid
  decide +kernel

end Identity

end EdgeNode.Sys
