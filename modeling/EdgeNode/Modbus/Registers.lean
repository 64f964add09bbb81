import EdgeNode.Types
import EdgeNode.Lib.BufferAccess

/-! The register file of the Modbus slave: `fte_modbus_registers.c` and the general
model of `fte_modbus_gen.c`, over the objects and services of the firmware. -/

namespace EdgeNode.Modbus

open BufferAccess

/-- What the register file asks of an object `ω`, of its values `υ` and of the kernel `η`. -/
structure Firmware (ω υ η : Type) where
  nID : ω → UInt32
  toINT16 : ω → UInt16
  setULONG : ω → UInt16 → Option υ
  setValue : ω → υ → Ret × ω
  allocZero : Nat → η → Bool × η
  rand : η → UInt16 × η

/-- The slave together with the object list and the kernel it runs on, and as a ghost the bytes that it
stores at addresses which are none of its memory. -/
structure Device (ω η : Type) where
  xObjList : List ω
  kernel : η
  usResetKey : UInt16
  ulRxPkt : UInt32
  ulRxError : UInt32
  ulTxPkt : UInt32
  resetting : Bool
  nullStores : List (Nat × UInt8)

def classMask : UInt32 := 0x7F000000
def classShift : UInt32 := 24
def objSystem : UInt32 := 0x80000000
def typeUnknown : UInt32 := 0x7FFFFFFF
def classDO : UInt32 := (0x06 : UInt32) <<< 24

variable {ω υ η : Type} (fw : Firmware ω υ η)

/-- The test `FTE_OBJ_getAt` and `FTE_OBJ_count` make with `bSystem` false. -/
def objMatches (nType nMask : UInt32) (obj : ω) : Bool :=
  (fw.nID obj &&& objSystem == 0) &&
    (nType == typeUnknown || fw.nID obj &&& nMask == nType &&& nMask)

def objCount (nType nMask : UInt32) (d : Device ω η) : Nat :=
  d.xObjList.countP (objMatches fw nType nMask)

/-- The position in the object list of the object that `FTE_OBJ_getAt` points to. -/
def objIndexAt (nType nMask : UInt32) : List ω → Nat → Option Nat
  | [], _ => none
  | obj :: objs, ulIndex =>
    if objMatches fw nType nMask obj then
      match ulIndex with
      | 0 => some 0
      | k + 1 => (objIndexAt nType nMask objs k).map (· + 1)
    else (objIndexAt nType nMask objs ulIndex).map (· + 1)

def objGetAt (nType nMask : UInt32) (ulIndex : Nat) (d : Device ω η) : Option (Nat × ω) := do
  let pos ← objIndexAt fw nType nMask d.xObjList ulIndex
  let obj ← d.xObjList[pos]?
  pure (pos, obj)

section Sensor

/-- `pSensorRegisters`: the class whose objects the register counts; no entry has an `fWrite`. -/
def sensorRegisters : List (Option UInt32) :=
  [none, some 0x01, some 0x02, some 0x03, some 0x04, some 0x05, some 0x06, some 0x07, some 0x08,
    some 0x09, some 0x0A, some 0x0B, some 0x0C, some 0x0D, some 0x40]

def readSensorCount (ucClass : UInt32) (d : Device ω η) : Ret × UInt16 :=
  (retOk, UInt16.ofNat (objCount fw (ucClass <<< classShift) classMask d))

end Sensor

/-- `FTE_MODBUS_SLAVE_GEN_readReset` draws a new key. -/
def readReset (d : Device ω η) : (Ret × UInt16) × Device ω η :=
  let (usResetKey, kernel) := fw.rand d.kernel
  ((retOk, usResetKey), { d with usResetKey, kernel })

def writeReset (usValue : UInt16) (d : Device ω η) : Ret × Device ω η :=
  if usValue ≠ 0 ∧ usValue = d.usResetKey then (retOk, { d with resetting := true })
  else
    let (usResetKey, kernel) := fw.rand d.kernel
    (retOk, { d with usResetKey, kernel })

inductive Counter where
  | rx
  | tx
  | error
  deriving DecidableEq

def Counter.get (c : Counter) (d : Device ω η) : UInt32 :=
  match c with
  | rx => d.ulRxPkt
  | tx => d.ulTxPkt
  | error => d.ulRxError

def Counter.clear (c : Counter) (d : Device ω η) : Device ω η :=
  match c with
  | rx => { d with ulRxPkt := 0 }
  | tx => { d with ulTxPkt := 0 }
  | error => { d with ulRxError := 0 }

/-- `pStatisticsRegisters`: the counter and whether the register is its low part. -/
def statisticsRegisters : List (Option (Counter × Bool)) :=
  [none, some (.rx, true), some (.rx, false), some (.tx, true), some (.tx, false),
    some (.error, true), some (.error, false)]

def readCounter (r : Counter × Bool) (d : Device ω η) : Ret × UInt16 :=
  let ul := (r.1.get d).toNat
  (retOk, UInt16.ofNat (if r.2 then ul % 10000 else ul / 10000))

def writeCounter (r : Counter × Bool) (usValue : UInt16) (d : Device ω η) : Ret × Device ω η :=
  if usValue ≠ 0 then (retModbusInvalidData, d) else (retOk, r.1.clear d)

def regSensorBase : Nat := 0
def regSystemBase : Nat := 100
def regStatisticsBase : Nat := 200

/-- `FTE_MODBUS_REG_read`: the group is the quotient by 100, the bases are multiples of 100. -/
def regRead (usReg : UInt16) (d : Device ω η) : (Ret × UInt16) × Device ω η :=
  let nGroup := usReg.toNat / 100
  let nIndex := usReg.toNat % 100
  if nGroup = regSystemBase then
    if nIndex = 1 then readReset fw d else ((retModbusInvalidAddress, 0), d)
  else if nGroup = regSensorBase then
    match sensorRegisters[nIndex]? with
    | some (some ucClass) => (readSensorCount fw ucClass d, d)
    | _ => ((retModbusInvalidAddress, 0), d)
  else if nGroup = regStatisticsBase then
    match statisticsRegisters[nIndex]? with
    | some (some r) => (readCounter r d, d)
    | _ => ((retModbusInvalidAddress, 0), d)
  else ((retModbusInvalidAddress, 0), d)

def regWrite (usReg usValue : UInt16) (d : Device ω η) : Ret × Device ω η :=
  let nGroup := usReg.toNat / 100
  let nIndex := usReg.toNat % 100
  if nGroup = regSensorBase then (retModbusInvalidAddress, d)
  else if nGroup = regSystemBase then
    if nIndex = 1 then writeReset fw usValue d else (retModbusInvalidAddress, d)
  else if nGroup = regStatisticsBase then
    match statisticsRegisters[nIndex]? with
    | some (some r) => writeCounter r usValue d
    | _ => (retModbusInvalidAddress, d)
  else (retModbusInvalidAddress, d)

def groupClass (usAddress : UInt16) : UInt32 := UInt32.ofNat (usAddress.toNat / 1000) <<< classShift

/-- The result code and what is left in `*pValue`, which the callers zero. For an output
`htons(*pValue, nValue)` takes this zero for an address and stores the value there. -/
def readHoldingRegister (usAddress : UInt16) (d : Device ω η) : (Ret × UInt16) × Device ω η :=
  let ulIndex := usAddress.toNat % 1000
  if usAddress.toNat / 1000 = 0 then regRead fw (UInt16.ofNat ulIndex) d
  else if groupClass usAddress = classDO then
    match objGetAt fw (groupClass usAddress) classMask ulIndex d with
    | none => ((retModbusInvalidAddress, 0), d)
    | some (_, obj) =>
      ((retOk, 0), { d with nullStores := d.nullStores ++ spread 0 (htons (fw.toINT16 obj)) })
  else ((retModbusInvalidAddress, 0), d)

/-- The loop drops the code of every register. -/
def readHoldingRegisters (usAddress : UInt16) :
    Nat → Device ω η → (Ret × List UInt16) × Device ω η
  | 0, d => ((retOk, []), d)
  | k + 1, d =>
    let ((_, usValue), d) := readHoldingRegister fw usAddress d
    let ((xRet, values), d) := readHoldingRegisters (usAddress + 1) k d
    ((xRet, usValue :: values), d)

def readInputRegister (usAddress : UInt16) (d : Device ω η) : Ret × UInt16 :=
  match objGetAt fw (groupClass usAddress) classMask (usAddress.toNat % 1000) d with
  | none => (retModbusInvalidAddress, 0)
  | some (_, obj) => (retOk, fw.toINT16 obj)

/-- The registers from the first failing one on keep the zeros of the allocation. -/
def readInputRegisters (usAddress : UInt16) (d : Device ω η) : Nat → Ret × List UInt16
  | 0 => (retOk, [])
  | k + 1 =>
    let (xRet, usValue) := readInputRegister fw usAddress d
    if xRet ≠ retOk then (xRet, List.replicate (k + 1) 0)
    else
      let (xRet, values) := readInputRegisters (usAddress + 1) d k
      (xRet, usValue :: values)

def writeSingleCoil (_usAddress usValue : UInt16) : Ret :=
  if usValue ≠ 0 ∧ usValue ≠ 0xFF00 then retModbusInvalidData else retOk

def writeSingleRegister (usAddress usValue : UInt16) (d : Device ω η) : Ret × Device ω η :=
  let ulIndex := usAddress.toNat % 1000
  if usAddress.toNat / 1000 = 0 then regWrite fw (UInt16.ofNat ulIndex) usValue d
  else if groupClass usAddress = classDO then
    match objGetAt fw (groupClass usAddress) classMask ulIndex d with
    | none => (retModbusInvalidAddress, d)
    | some (pos, obj) =>
      match fw.setULONG obj usValue with
      | none => (retModbusInvalidData, d)
      | some xValue =>
        let (xRet, obj) := fw.setValue obj xValue
        (if xRet ≠ retOk then retModbusInvalidData else retOk,
          { d with xObjList := d.xObjList.set pos obj })
  else (retModbusInvalidAddress, d)

/-- The loop of `FTE_MODBUS_SLAVE_GEN_writeMultiCoils` from coil `i` on, over the packed bits at
index `pValues` of the request. -/
def writeMultiCoilsFrom {σ : Type} (usAddress : UInt16) (pValues i : Nat) : Nat → Access σ Ret
  | 0 => pure retOk
  | k + 1 => do
    let b ← peek (pValues + i / 8)
    let usValue := if (b.toNat >>> (i % 8)) % 2 = 1 then 0xFF00 else 0x0000
    let xRet := writeSingleCoil (usAddress + UInt16.ofNat i) usValue
    if xRet ≠ retOk then pure xRet else writeMultiCoilsFrom usAddress pValues (i + 1) k

def writeMultiCoils {σ : Type} (usAddress usQuantity : UInt16) (pValues : Nat) : Access σ Ret :=
  writeMultiCoilsFrom usAddress pValues 0 usQuantity.toNat

def writeMultiRegisters (usAddress : UInt16) : List UInt16 → Device ω η → Ret × Device ω η
  | [], d => (retOk, d)
  | usValue :: values, d =>
    let (xRet, d) := writeSingleRegister fw usAddress usValue d
    if xRet ≠ retOk then (xRet, d) else writeMultiRegisters (usAddress + 1) values d

structure DeviceIdent where
  values : List (UInt8 × List UInt8)
  ucConformityLevel : UInt8
  ucMoreFollows : UInt8
  ucNextObjectID : UInt8

/-- The texts of `FTE_MODBUS_SLAVE_GEN_readDeviceIdent`, cut at the length it stores with each. -/
def identText : Nat → List UInt8
  | 0 => "FutureTek,Inc.".toUTF8.toList
  | 1 => ("fte series".toUTF8.toList).take 9
  | 2 => "v1.0".toUTF8.toList
  | _ => []

def identValues (ucObjectID : Nat) : Nat → List (UInt8 × List UInt8)
  | 0 => []
  | k + 1 =>
    if ucObjectID < 3 then
      (UInt8.ofNat ucObjectID, identText ucObjectID) :: identValues (ucObjectID + 1) k
    else []

def readDeviceIdent (ucMEIType ucDeviceIDCode ucObjectID : UInt8) (ucMaxValues : Nat) :
    Ret × DeviceIdent :=
  let xNone : DeviceIdent := ⟨[], 0, 0, 0⟩
  if ucMEIType ≠ 0x0E then (retModbusInvalidData, xNone)
  else if 3 ≤ ucObjectID.toNat then (retModbusInvalidAddress, xNone)
  else if ucDeviceIDCode ≠ 0 then (retModbusInvalidData, xNone)
  else (retOk, ⟨identValues ucObjectID.toNat ucMaxValues, 0x81, 0, 0⟩)

/-- Firmware without objects, whose allocations succeed. -/
def bareFirmware : Firmware Unit Unit Unit where
  nID _ := 0
  toINT16 _ := 0
  setULONG _ _ := none
  setValue _ _ := (retOk, ())
  allocZero _ _ := (true, ())
  rand _ := (0, ())

def bareDevice : Device Unit Unit := ⟨[], (), 0, 0, 0, 0, false, []⟩

theorem writeSingleCoil_onOff (usAddress : UInt16) (b : Prop) [Decidable b] :
    writeSingleCoil usAddress (if b then 0xFF00 else 0x0000) = retOk := by
  by_cases h : b <;> simp [writeSingleCoil, h]

theorem readHoldingRegisters_length (usAddress : UInt16) (k : Nat) (d : Device ω η) :
    (readHoldingRegisters fw usAddress k d).1.2.length = k := by
  induction k generalizing usAddress d with
  | zero => rfl
  | succ k ih => simp [readHoldingRegisters, ih]

theorem readInputRegisters_length (usAddress : UInt16) (d : Device ω η) (k : Nat) :
    (readInputRegisters fw usAddress d k).2.length = k := by
  induction k generalizing usAddress with
  | zero => rfl
  | succ k ih =>
    simp only [readInputRegisters]
    split <;> simp [ih]

section Tables

/-- The addresses of a range, which go on from 0 after the last. -/
def addresses (usAddress : UInt16) : Nat → List UInt16
  | 0 => []
  | k + 1 => usAddress :: addresses (usAddress + 1) k

/-- What the table of holding registers has at an address: the number of objects of a class, the
value of an output, or nothing. -/
def holdingRegister (d : Device ω η) (usAddress : UInt16) : Option UInt16 :=
  if usAddress.toNat < 1000 then
    (sensorRegisters[usAddress.toNat]?).join.map fun ucClass => (readSensorCount fw ucClass d).2
  else if groupClass usAddress = classDO then
    (objGetAt fw (groupClass usAddress) classMask (usAddress.toNat % 1000) d).map
      fun p => fw.toINT16 p.2
  else none

theorem regRead_below {i : Nat} (hi : i < 1000) (d : Device ω η) :
    regRead fw (UInt16.ofNat i) d =
      match (sensorRegisters[i]?).join with
      | some ucClass => (readSensorCount fw ucClass d, d)
      | none => ((retModbusInvalidAddress, 0), d) := by
  have hn : (UInt16.ofNat i).toNat = i := by
    rw [UInt16.toNat_ofNat']
    omega
  have hg : i / 100 ≠ regSystemBase ∧ i / 100 ≠ regStatisticsBase := by
    simp only [regSystemBase, regStatisticsBase]
    omega
  rw [regRead, hn, if_neg hg.1, if_neg hg.2]
  by_cases h0 : i / 100 = regSensorBase
  · have hm : i % 100 = i := Nat.mod_eq_of_lt (by simp only [regSensorBase] at h0; omega)
    rw [if_pos h0, hm]
    rcases sensorRegisters[i]? with _ | _ | ucClass <;> rfl
  · have hlen : sensorRegisters.length ≤ i := by
      simp only [regSensorBase] at h0
      simp only [sensorRegisters, List.length_cons, List.length_nil]
      omega
    rw [if_neg h0, List.getElem?_eq_none hlen]
    rfl

/-- What a read of a holding register leaves in `*pValue`. -/
def holdingSeen (d : Device ω η) (usAddress : UInt16) : UInt16 :=
  if usAddress.toNat < 1000 then (holdingRegister fw d usAddress).getD 0 else 0

/-- What it stores elsewhere: the value of an output. -/
def holdingStores (d : Device ω η) (usAddress : UInt16) : List (Nat × UInt8) :=
  if usAddress.toNat < 1000 then []
  else (holdingRegister fw d usAddress).elim [] fun usValue => spread 0 (htons usValue)

theorem readHoldingRegister_eq (usAddress : UInt16) (d : Device ω η) :
    readHoldingRegister fw usAddress d =
      ((if (holdingRegister fw d usAddress).isSome then retOk else retModbusInvalidAddress,
          holdingSeen fw d usAddress),
        { d with nullStores := d.nullStores ++ holdingStores fw d usAddress }) := by
  rw [readHoldingRegister, holdingSeen, holdingStores]
  by_cases h0 : usAddress.toNat < 1000
  · have hd : usAddress.toNat / 1000 = 0 := by omega
    have hm : usAddress.toNat % 1000 = usAddress.toNat := Nat.mod_eq_of_lt h0
    rw [if_pos hd, if_pos h0, if_pos h0, hm, regRead_below fw h0, holdingRegister, if_pos h0,
      List.append_nil]
    rcases (sensorRegisters[usAddress.toNat]?).join with _ | ucClass <;> rfl
  · have hd : ¬usAddress.toNat / 1000 = 0 := by omega
    rw [if_neg hd, if_neg h0, if_neg h0, holdingRegister, if_neg h0]
    by_cases hc : groupClass usAddress = classDO
    · rw [if_pos hc, if_pos hc]
      cases objGetAt fw (groupClass usAddress) classMask (usAddress.toNat % 1000) d with
      | none => simp
      | some p => rfl
    · rw [if_neg hc, if_neg hc]
      simp

/-- The stores elsewhere change nothing that is read. -/
theorem readHoldingRegisters_eq (usAddress : UInt16) (k : Nat) (d : Device ω η) :
    readHoldingRegisters fw usAddress k d =
      ((retOk, (addresses usAddress k).map (holdingSeen fw d)),
        { d with nullStores :=
            d.nullStores ++ (addresses usAddress k).flatMap (holdingStores fw d) }) := by
  induction k generalizing usAddress d with
  | zero => simp [readHoldingRegisters, addresses]
  | succ k ih =>
    rw [readHoldingRegisters, readHoldingRegister_eq]
    dsimp only
    rw [ih, addresses, List.flatMap_cons, ← List.append_assoc]
    rfl

/-- A register that is there stores something elsewhere exactly if it is an output. -/
theorem holdingStores_eq_nil_iff {d : Device ω η} {x : UInt16}
    (h : (holdingRegister fw d x).isSome) : holdingStores fw d x = [] ↔ groupClass x ≠ classDO := by
  have hbelow : x.toNat < 1000 → groupClass x ≠ classDO := by
    intro hx
    rw [groupClass, Nat.div_eq_of_lt hx]
    decide
  rw [holdingStores]
  by_cases h0 : x.toNat < 1000
  · rw [if_pos h0]
    exact iff_of_true rfl (hbelow h0)
  · obtain ⟨usValue, hx⟩ := Option.isSome_iff_exists.mp h
    have hc : groupClass x = classDO := by
      by_contra hc
      rw [holdingRegister, if_neg h0, if_neg hc] at hx
      cases hx
    rw [if_neg h0, hx]
    exact iff_of_false (fun hnil => nomatch hnil) (not_not_intro hc)

theorem readHoldingRegisters_stores_iff {d : Device ω η} {usAddress : UInt16} {k : Nat}
    (h : ∀ x ∈ addresses usAddress k, (holdingRegister fw d x).isSome) :
    (readHoldingRegisters fw usAddress k d).2.nullStores = d.nullStores ↔
      ∀ x ∈ addresses usAddress k, groupClass x ≠ classDO := by
  rw [readHoldingRegisters_eq]
  dsimp only
  rw [List.append_right_eq_self, List.flatMap_eq_nil_iff]
  exact forall₂_congr fun x hx => holdingStores_eq_nil_iff fw (h x hx)

end Tables

end EdgeNode.Modbus
