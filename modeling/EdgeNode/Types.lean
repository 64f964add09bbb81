import Mathlib.Algebra.Group.Nat.Defs

/-! Return codes and machine words shared by all parts of the firmware. -/

namespace EdgeNode

/-- `FTE_RET`: an unsigned word, over `MQX_ERROR_BASE = 0`. -/
abbrev Ret := UInt32

def retOk : Ret := 0
def retError : Ret := 0xFF
def retObjectFull : Ret := 0x80
def retNotSupportedFunction : Ret := 0x81
def retNotEnoughMemory : Ret := 0x85
def retObjectNotFound : Ret := 0x86
def retInvalidId : Ret := 0x87
def retRunning : Ret := 0x8D
def retInvalidMsg : Ret := 0x90
def retBufferTooSmall : Ret := 0x91
def retModbusInvalidFunction : Ret := 0xA1
def retModbusInvalidAddress : Ret := 0xA2
def retModbusInvalidData : Ret := 0xA3
def retModbusExecuteError : Ret := 0xA4

theorem retError_ne : retError ≠ retOk := by decide

/-- The results where a call may also stop. -/
theorem some_retError_ne : some retError ≠ some retOk := fun h => retError_ne (Option.some.inj h)

/-- `FTE_NTOHS` of the two bytes as they stand in the frame. -/
def ntohs (hi lo : UInt8) : UInt16 := UInt16.ofNat (hi.toNat * 256 + lo.toNat)

/-- The two bytes that `FTE_HTONS` leaves in the frame. -/
def htons (w : UInt16) : List UInt8 := [UInt8.ofNat (w.toNat / 256), UInt8.ofNat w.toNat]

theorem ntohs_toNat (hi lo : UInt8) : (ntohs hi lo).toNat = hi.toNat * 256 + lo.toNat := by
  have hh := hi.toNat_lt
  have hl := lo.toNat_lt
  simp only [ntohs, UInt16.toNat_ofNat']
  omega

@[simp] theorem htons_length (w : UInt16) : (htons w).length = 2 := rfl

theorem ntohs_htons (w : UInt16) :
    ntohs (UInt8.ofNat (w.toNat / 256)) (UInt8.ofNat w.toNat) = w := by
  have hw := w.toNat_lt
  apply UInt16.toNat_inj.mp
  simp only [ntohs_toNat, UInt8.toNat_ofNat']
  omega

end EdgeNode
