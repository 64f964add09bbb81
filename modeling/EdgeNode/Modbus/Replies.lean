import EdgeNode.Modbus.Bounds

/-! Which requests `FTE_MODBUS_SLAVE_process` answers, with a normal response or an exception. -/

namespace EdgeNode.Modbus

open BufferAccess

variable {ω υ η : Type}

/-- The length of a request or a quantity in it that its function code does not allow: other than
the layout asks for, none or too many, or not what the byte count says. -/
def BadRequest (n : Nat) (mem : Nat → UInt8) : Prop :=
  match (mem 0).toNat with
  | 1 | 2 => n ≠ 5 ∨ (field mem 3).toNat < 1 ∨ maxCoils < (field mem 3).toNat
  | 3 | 4 => n ≠ 5 ∨ (field mem 3).toNat < 1 ∨ maxHoldingRegisters < (field mem 3).toNat
  | 5 | 6 => n ≠ 5
  | 15 => n ≤ 6 ∨ n ≠ 6 + (mem 5).toNat ∨ (field mem 3).toNat < 1 ∨
      maxCoils < (field mem 3).toNat ∨ (mem 5).toNat ≠ ((field mem 3).toNat + 7) / 8
  | 16 => n ≤ 6 ∨ n ≠ 6 + (mem 5).toNat ∨ (field mem 3).toNat < 1 ∨
      maxHoldingRegisters < (field mem 3).toNat ∨ (mem 5).toNat ≠ 2 * (field mem 3).toNat
  | 23 => n ≤ 10 ∨ n ≠ 10 + (mem 9).toNat ∨ (field mem 7).toNat < 1 ∨
      maxHoldingRegisters < (field mem 7).toNat ∨ (mem 9).toNat ≠ 2 * (field mem 7).toNat ∨
        (field mem 3).toNat < 1 ∨ maxHoldingRegisters < (field mem 3).toNat
  | 43 => n ≤ 4
  | _ => False

def Supported (ucFunctionCode : UInt8) : Prop :=
  ucFunctionCode.toNat ∈ [1, 2, 3, 4, 6, 15, 16, 23, 43]

/-- The normal response of a function code: the data behind their byte count, the echo of address
and value or quantity, or the object list. -/
def NormalReply (mem : Nat → UInt8) (bs : List UInt8) : Prop :=
  match (mem 0).toNat with
  | 1 | 2 => ∃ b data, bs = mem 0 :: b :: data ∧ b.toNat = data.length ∧
      data.length = ((field mem 3).toNat + 7) / 8
  | 3 | 4 | 23 => ∃ b data, bs = mem 0 :: b :: data ∧ b.toNat = data.length ∧
      data.length = 2 * (field mem 3).toNat
  | 5 | 6 | 15 | 16 => bs = [mem 0, mem 1, mem 2, mem 3, mem 4]
  | 43 => ∃ xIdent : DeviceIdent, bs = [mem 0, mem 1, mem 2, xIdent.ucConformityLevel,
      xIdent.ucMoreFollows, xIdent.ucNextObjectID, UInt8.ofNat xIdent.values.length] ++
        identBytes xIdent.values
  | _ => False

section Verdict

variable (fw : Firmware ω υ η) (mem : Nat → UInt8) (d : Device ω η)

/-- What the device makes of the write of a write-and-read. -/
def writeBack : Ret × Device ω η :=
  writeMultiRegisters fw (field mem 5) (words (bytesAt mem 6 (2 * (field mem 7).toNat)))
    (afterAlloc fw (2 * (field mem 7).toNat) d)

/-- The code of the first holding register that fails. -/
def holdingVerdict (usAddress : UInt16) : Nat → Device ω η → Ret
  | 0, _ => retOk
  | k + 1, d =>
    let ((xRet, _), d) := readHoldingRegister fw usAddress d
    if xRet ≠ retOk then xRet else holdingVerdict (usAddress + 1) k d

/-- What the register file says to the request, when it is asked. -/
def verdict : Ret :=
  match (mem 0).toNat with
  | 3 => holdingVerdict fw (field mem 1) (field mem 3).toNat
      (afterAlloc fw (2 * (field mem 3).toNat) d)
  | 4 => (readInputRegisters fw (field mem 1) (afterAlloc fw (2 * (field mem 3).toNat) d)
      (field mem 3).toNat).1
  | 6 => (writeSingleRegister fw (field mem 1) (field mem 3) d).1
  | 16 => (writeMultiRegisters fw (field mem 1)
      (words (bytesAt mem 6 (2 * (field mem 3).toNat)))
      (afterAlloc fw (2 * (field mem 3).toNat) d)).1
  | 23 => if (writeBack fw mem d).1 ≠ retOk then (writeBack fw mem d).1
      else (readInputRegisters fw (field mem 1)
        (afterAlloc fw (2 * (field mem 3).toNat) (writeBack fw mem d).2) (field mem 3).toNat).1
  | 43 => (readDeviceIdent (mem 1) (mem 2) (mem 3) 3).1
  | _ => retOk

def exceptCode (xRet : Ret) : UInt8 := UInt8.ofNat (xRet.toNat % 16)

/-- An exception response with the code of a failure of the request: of its function code, of its
length or quantity, or as the register file refused it. -/
def ExceptionReply (n : Nat) (bs : List UInt8) : Prop :=
  ∃ c, bs = [mem 0 ||| 0x80, c] ∧
    ((¬ Supported (mem 0) ∧ c = exceptCode retModbusInvalidFunction) ∨
      (BadRequest n mem ∧ c = exceptCode retModbusInvalidData) ∨
      (verdict fw mem d ≠ retOk ∧ c = exceptCode (verdict fw mem d)))

/-- The response PDU left in the buffer fits it and is a normal response, to a request that does not
fail, or an exception. -/
def Answers (n m : Nat) (r : Reply) (ws : List (Nat × UInt8)) : Prop :=
  ∃ bs : List UInt8, r = (retOk, some bs.length) ∧ bs.length ≤ m ∧ Holds ws bs ∧
    ((NormalReply mem bs ∧ ¬ BadRequest n mem ∧ verdict fw mem d = retOk) ∨
      ExceptionReply fw mem d n bs)

/-- The requests with room for the response and memory for the values, whose length is allowed, and
whose quantities are unless the register file refuses the request. Reading holding registers must
find every one of them. -/
def Replied (n m : Nat) : Prop :=
  match (mem 0).toNat with
  | 1 | 2 => ¬ BadRequest n mem ∧ 2 + ((field mem 3).toNat + 7) / 8 ≤ m ∧
      (fw.allocZero (((field mem 3).toNat + 7) / 8) d.kernel).1 = true
  | 3 => ¬ BadRequest n mem ∧ 2 + 2 * (field mem 3).toNat ≤ m ∧
      (fw.allocZero (2 * (field mem 3).toNat) d.kernel).1 = true ∧ verdict fw mem d = retOk
  | 4 => ¬ BadRequest n mem ∧ 2 + 2 * (field mem 3).toNat ≤ m ∧
      (fw.allocZero (2 * (field mem 3).toNat) d.kernel).1 = true
  | 5 | 6 | 15 => ¬ BadRequest n mem ∧ 5 ≤ m
  | 16 => 6 < n ∧ n = 6 + (mem 5).toNat ∧ 5 ≤ m ∧
      (fw.allocZero (2 * (field mem 3).toNat) d.kernel).1 = true ∧
        (verdict fw mem d = retOk → ¬ BadRequest n mem)
  | 23 => 10 < n ∧ n = 10 + (mem 9).toNat ∧ 2 ≤ m ∧
      (fw.allocZero (2 * (field mem 7).toNat) d.kernel).1 = true ∧
        ((writeBack fw mem d).1 = retOk →
          (fw.allocZero (2 * (field mem 3).toNat) (writeBack fw mem d).2.kernel).1 = true) ∧
        (verdict fw mem d = retOk → ¬ BadRequest n mem ∧ 2 + 2 * (field mem 3).toNat ≤ m)
  | 43 => ¬ BadRequest n mem ∧ 2 ≤ m ∧ (verdict fw mem d = retOk →
      7 + (identBytes (readDeviceIdent (mem 1) (mem 2) (mem 3) 3).2.values).length ≤ m)
  | _ => False

/-- A read of holding registers names no output besides. -/
def Served (n m : Nat) : Prop :=
  Replied fw mem d n m ∧ ((mem 0).toNat = 3 →
    ∀ x ∈ addresses (field mem 1) (field mem 3).toNat, groupClass x ≠ classDO)

end Verdict

section Codes

variable (fw : Firmware ω υ η)

theorem readInputRegisters_isException (usAddress : UInt16) (d : Device ω η) (k : Nat)
    (h : (readInputRegisters fw usAddress d k).1 ≠ retOk) :
    isException (readInputRegisters fw usAddress d k).1 = true := by
  induction k generalizing usAddress with
  | zero => exact absurd rfl h
  | succ k ih =>
    have hone : (readInputRegister fw usAddress d).1 = retOk ∨
        (readInputRegister fw usAddress d).1 = retModbusInvalidAddress := by
      rw [readInputRegister]
      split
      · exact Or.inr rfl
      · exact Or.inl rfl
    rw [readInputRegisters] at h ⊢
    obtain hok | hbad := hone
    · simp only [hok, ne_eq, not_true_eq_false, if_false] at h ⊢
      exact ih (usAddress + 1) h
    · simp only [hbad, ne_eq, show retModbusInvalidAddress ≠ retOk by decide, not_false_eq_true,
        if_true]
      rfl

end Codes

section Tail

variable (fw : Firmware ω υ η) {d t : Device ω η} {n m : Nat} {mem : Nat → UInt8}

end Tail

section Branches

variable (fw : Firmware ω υ η) {d : Device ω η} {n m : Nat} {mem : Nat → UInt8}

@[simp] theorem yields_peekWord {σ : Type} {s : σ} (i : Nat)
    (Q : UInt16 → σ → List (Nat × UInt8) → Prop) :
    Yields (peekWord i) Q mem s ↔ Q (field mem i) s [] := by
  simp [peekWord, field]

@[simp] theorem yields_alloc {α : Type} (ulSize : Nat) (p : Access (Device ω η) (Ret × Option α))
    (Q : Ret × Option α → Device ω η → List (Nat × UInt8) → Prop) :
    Yields (alloc fw ulSize p) Q mem d ↔
      if (fw.allocZero ulSize d.kernel).1 then Yields p Q mem (afterAlloc fw ulSize d)
      else Q (retNotEnoughMemory, none) (afterAlloc fw ulSize d) [] := by
  cases h : (fw.allocZero ulSize d.kernel).1 <;> simp [alloc, afterAlloc, h]

theorem readHoldingRegisters_ok (usAddress : UInt16) (k : Nat) (d : Device ω η) :
    (readHoldingRegisters fw usAddress k d).1.1 = retOk := by
  induction k generalizing usAddress d with
  | zero => rfl
  | succ k ih => exact ih _ _

end Branches

section Stores

variable {fw : Firmware ω υ η} {d : Device ω η} {n m : Nat} {mem : Nat → UInt8}

theorem regWrite_nullStores (usReg usValue : UInt16) :
    (regWrite fw usReg usValue d).2.nullStores = d.nullStores := by
  rw [regWrite]
  split_ifs
  · rfl
  · rw [writeReset]
    split <;> rfl
  · rfl
  · split
    next r _ =>
      rw [writeCounter]
      split
      · rfl
      · rcases r with ⟨_ | _ | _, _⟩ <;> rfl
    next => rfl
  · rfl

@[simp] theorem writeSingleRegister_nullStores (usAddress usValue : UInt16) :
    (writeSingleRegister fw usAddress usValue d).2.nullStores = d.nullStores := by
  rw [writeSingleRegister]
  split_ifs
  · exact regWrite_nullStores _ _
  · cases objGetAt fw (groupClass usAddress) classMask (usAddress.toNat % 1000) d with
    | none => rfl
    | some p => cases hx : fw.setULONG p.2 usValue <;> simp [hx]
  · rfl

@[simp] theorem writeMultiRegisters_nullStores (usAddress : UInt16) (values : List UInt16) :
    (writeMultiRegisters fw usAddress values d).2.nullStores = d.nullStores := by
  induction values generalizing usAddress d with
  | nil => rfl
  | cons usValue values ih =>
    rw [writeMultiRegisters]
    dsimp only
    split
    · exact writeSingleRegister_nullStores _ _
    · rw [ih, writeSingleRegister_nullStores]

end Stores

end EdgeNode.Modbus
