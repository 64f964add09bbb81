import EdgeNode.Modbus.CounterRegisters
import EdgeNode.Modbus.Ranges
import EdgeNode.Values.Text

/-! Writes to the outputs, the only registers a master can write: the objects and their drivers,
and what a write to a range leaves behind when one of its registers refuses. -/

namespace EdgeNode.Modbus

open Values

section Definitions

/-- `FTE_OBJECT` as a register: its ID, the value of its status and what its driver holds. -/
structure Object (δ : Type) where
  nID : UInt32
  pValue : Value
  driver : δ

/-- `FTE_VALUE_toINT16`, into a variable that is 0. -/
def toINT16 (v : Value) : UInt16 :=
  if v.bValid = false then 0
  else match v.xType with
    | .voltage | .current | .pwrKw | .pwrKwh => (v.xData / 10).toUInt16
    | .bool => 0
    | _ => v.xData.toUInt16

def setULONG (v : Value) (ulValue : UInt32) : Value := setValid { v with xData := ulValue } true

/-- The drivers' `fSet`, for an object that has one, and the services of the kernel. -/
structure Services (δ η : Type) where
  fSet : δ → Option (Value → Value → Ret × Value × δ)
  allocZero : Nat → η → Bool × η
  rand : η → UInt16 × η

variable {δ η γ : Type} (s : Services δ η)

/-- `FTE_OBJ_setValue` -/
def Services.setValue (obj : Object δ) (xValue : Value) : Ret × Object δ :=
  match s.fSet obj.driver with
  | none => (retError, obj)
  | some f =>
    let (xRet, pValue, driver) := f obj.pValue xValue
    (xRet, { obj with pValue, driver })

def Services.firmware : Firmware (Object δ) Value η where
  nID := Object.nID
  toINT16 obj := toINT16 obj.pValue
  setULONG obj usValue := some (setULONG obj.pValue usValue.toUInt32)
  setValue := s.setValue
  allocZero := s.allocZero
  rand := s.rand

/-- `_do_set_value` -/
def doSetValue (gpioSet : γ → UInt32 → Ret × γ) (gpio : γ) (pValue xValue : Value) :
    Ret × Value × γ :=
  if pValue.bValid ∧ pValue.xData = xValue.xData then (retOk, pValue, gpio)
  else
    let (xRet, gpio) := gpioSet gpio xValue.xData
    if xRet ≠ retOk then (retError, pValue, gpio)
    else (retOk, setValid { pValue with xData := xValue.xData } true, gpio)

/-- Objects that are all digital outputs, over a driver of the pins. -/
def outputServices (gpioSet : γ → UInt32 → Ret × γ) (allocZero : Nat → η → Bool × η)
    (rand : η → UInt16 × η) : Services γ η where
  fSet gpio := some (doSetValue gpioSet gpio)
  allocZero := allocZero
  rand := rand

/-- What a master reads from the slave, in whichever table. -/
structure SameRegisters (d d' : Device (Object δ) η) : Prop where
  holding : ∀ x, holdingRegister s.firmware d' x = holdingRegister s.firmware d x
  input : ∀ x, inputRegister s.firmware d' x = inputRegister s.firmware d x
  counters : SameCounters d d'
  resetKey : d'.usResetKey = d.usResetKey

/-- The position of the output whose register stands at an address. -/
def outputPos (d : Device (Object δ) η) (usAddress : UInt16) : Option Nat :=
  if groupClass usAddress = classDO then
    objIndexAt s.firmware classDO classMask d.xObjList (usAddress.toNat % 1000)
  else none

/-- The value of a register handed to the driver of its object. -/
def Services.hand (obj : Object δ) (usValue : UInt16) : Ret × Object δ :=
  s.setValue obj (setULONG obj.pValue usValue.toUInt32)

/-- The address has an output, and its driver takes the value. -/
def Taken (d : Device (Object δ) η) (y : UInt16 × UInt16) : Prop :=
  ∃ p ∈ outputPos s d y.1, ∃ obj ∈ d.xObjList[p]?, (s.hand obj y.2).1 = retOk

/-- The output at the address, if there is one, reads the same after its driver was handed the
value. -/
def Unmoved (d : Device (Object δ) η) (y : UInt16 × UInt16) : Prop :=
  ∀ p ∈ outputPos s d y.1, ∀ obj ∈ d.xObjList[p]?,
    toINT16 (s.hand obj y.2).2.pValue = toINT16 obj.pValue

/-- The writes of a range, each with its address. -/
def requested (usAddress : UInt16) : List UInt16 → List (UInt16 × UInt16)
  | [] => []
  | usValue :: values => (usAddress, usValue) :: requested (usAddress + 1) values

/-- Where a write is refused and those before it are not, none of them moves its register. -/
def RangeUnmoved (d : Device (Object δ) η) (ys : List (UInt16 × UInt16)) : Prop :=
  ∀ done x rest, ys = done ++ x :: rest → (∀ y ∈ done, Taken s d y) → ¬Taken s d x →
    ∀ y ∈ done ++ [x], Unmoved s d y

def handAt (d : Device (Object δ) η) (y : UInt16 × UInt16) : Device (Object δ) η :=
  match outputPos s d y.1 with
  | none => d
  | some p => { d with xObjList := d.xObjList.modify p fun obj => (s.hand obj y.2).2 }

def handAll (d : Device (Object δ) η) (ys : List (UInt16 × UInt16)) : Device (Object δ) η :=
  ys.foldl (handAt s) d

end Definitions

variable {δ η : Type} {s : Services δ η} {d : Device (Object δ) η}

section Addresses

theorem mem_addresses {x usAddress : UInt16} {k : Nat} (h : x ∈ addresses usAddress k) :
    ∃ i < k, x.toNat = (usAddress.toNat + i) % 65536 := by
  induction k generalizing usAddress with
  | zero => simp [addresses] at h
  | succ k ih =>
    obtain rfl | h := List.mem_cons.mp h
    · exact ⟨0, by omega, by have := x.toNat_lt; omega⟩
    · obtain ⟨i, hi, hx⟩ := ih h
      refine ⟨i + 1, by omega, ?_⟩
      rw [hx, UInt16.toNat_add]
      simp only [UInt16.toNat_one]
      omega

theorem addresses_nodup {usAddress : UInt16} {k : Nat} (hk : k ≤ 65536) :
    (addresses usAddress k).Nodup := by
  induction k generalizing usAddress with
  | zero => exact List.nodup_nil
  | succ k ih =>
    refine List.nodup_cons.mpr ⟨fun h => ?_, ih (by omega)⟩
    obtain ⟨i, hi, hx⟩ := mem_addresses h
    rw [UInt16.toNat_add] at hx
    simp only [UInt16.toNat_one] at hx
    have := usAddress.toNat_lt
    omega

theorem requested_fst (usAddress : UInt16) (values : List UInt16) :
    (requested usAddress values).map Prod.fst = addresses usAddress values.length := by
  induction values generalizing usAddress with
  | nil => rfl
  | cons usValue values ih => simp [requested, addresses, ih]

end Addresses

section Positions

variable {ω υ : Type} {fw : Firmware ω υ η} {nType nMask : UInt32}

theorem objIndexAt_congr {η' : Type} (fw : Firmware ω υ η) (fw' : Firmware ω υ η')
    {objs objs' : List ω} (h : objs'.map fw'.nID = objs.map fw.nID) (i : Nat) :
    objIndexAt fw' nType nMask objs' i = objIndexAt fw nType nMask objs i := by
  induction objs generalizing objs' i with
  | nil =>
    rw [List.map_eq_nil_iff.mp h]
    rfl
  | cons obj objs ih =>
    cases objs' with
    | nil => simp at h
    | cons obj' objs' =>
      obtain ⟨hid, ht⟩ := List.cons.inj h
      have hm : objMatches fw' nType nMask obj' = objMatches fw nType nMask obj := by
        rw [objMatches, objMatches, hid]
      simp only [objIndexAt, hm]
      by_cases hobj : objMatches fw nType nMask obj = true
      · rw [if_pos hobj, if_pos hobj]
        cases i with
        | zero => rfl
        | succ k => exact congrArg (Option.map (· + 1)) (ih ht k)
      · rw [if_neg hobj, if_neg hobj, ih ht i]

theorem objIndexAt_inj {objs : List ω} {i j p : Nat}
    (hi : objIndexAt fw nType nMask objs i = some p)
    (hj : objIndexAt fw nType nMask objs j = some p) : i = j := by
  induction objs generalizing i j p with
  | nil => cases hi
  | cons obj objs ih =>
    simp only [objIndexAt] at hi hj
    have hback {i j : Nat} (hi : (objIndexAt fw nType nMask objs i).map (· + 1) = some p)
        (hj : (objIndexAt fw nType nMask objs j).map (· + 1) = some p) : i = j := by
      obtain ⟨a, ha, rfl⟩ := Option.map_eq_some_iff.mp hi
      obtain ⟨b, hb, hab⟩ := Option.map_eq_some_iff.mp hj
      exact ih ha (by rw [hb, Nat.succ.inj hab])
    by_cases hm : objMatches fw nType nMask obj = true
    · rw [if_pos hm] at hi hj
      match i, j with
      | 0, 0 => rfl
      | 0, j + 1 =>
        cases hi
        simp at hj
      | i + 1, 0 =>
        cases hj
        simp at hi
      | i + 1, j + 1 => exact congrArg _ (hback hi hj)
    · rw [if_neg hm] at hi hj
      exact hback hi hj

theorem groupClass_eq_classDO_iff (usAddress : UInt16) :
    groupClass usAddress = classDO ↔ usAddress.toNat / 1000 = 6 := by
  have hlt := usAddress.toNat_lt
  have hg : (groupClass usAddress).toNat = usAddress.toNat / 1000 * 16777216 := by
    rw [groupClass, UInt32.toNat_shiftLeft, UInt32.toNat_ofNat', Nat.shiftLeft_eq]
    have hs : classShift.toNat % 32 = 24 := rfl
    rw [hs]
    omega
  have hc : classDO.toNat = 6 * 16777216 := rfl
  rw [← UInt32.toNat_inj, hg, hc]
  omega

end Positions

section Writes

theorem handAt_nIDs (d : Device (Object δ) η) (y : UInt16 × UInt16) :
    (handAt s d y).xObjList.map Object.nID = d.xObjList.map Object.nID := by
  have hid (obj : Object δ) : (s.hand obj y.2).2.nID = obj.nID := by
    rw [Services.hand, Services.setValue]
    split <;> rfl
  rw [handAt]
  split
  · rfl
  · next p _ =>
    apply List.ext_getElem?
    intro i
    simp only [List.getElem?_map, List.getElem?_modify]
    by_cases hp : p = i
    · cases d.xObjList[i]? <;> simp [hp, hid]
    · simp [hp]

theorem outputPos_congr {d d' : Device (Object δ) η}
    (h : d'.xObjList.map Object.nID = d.xObjList.map Object.nID) (usAddress : UInt16) :
    outputPos s d' usAddress = outputPos s d usAddress := by
  rw [outputPos, outputPos]
  split
  · exact objIndexAt_congr s.firmware s.firmware h _
  · rfl

@[simp] theorem outputPos_handAt (y : UInt16 × UInt16) (usAddress : UInt16) :
    outputPos s (handAt s d y) usAddress = outputPos s d usAddress :=
  outputPos_congr (handAt_nIDs d y) usAddress

theorem outputPos_inj {x y : UInt16} {p : Nat} (hx : outputPos s d x = some p)
    (hy : outputPos s d y = some p) : x = y := by
  rw [outputPos] at hx hy
  split at hx
  · next hgx =>
    split at hy
    · next hgy =>
      have hi := objIndexAt_inj hx hy
      rw [groupClass_eq_classDO_iff] at hgx hgy
      exact UInt16.toNat_inj.mp (by omega)
    · cases hy
  · cases hx

theorem handAt_getElem? (y : UInt16 × UInt16) (p : Nat) :
    (handAt s d y).xObjList[p]? =
      if outputPos s d y.1 = some p then d.xObjList[p]?.map fun obj => (s.hand obj y.2).2
      else d.xObjList[p]? := by
  rw [handAt]
  split
  · next h => simp [h]
  · next q h =>
    rw [List.getElem?_modify, h]
    by_cases hq : q = p <;> simp [hq]

theorem taken_handAt {x y : UInt16 × UInt16} (h : x.1 ≠ y.1) :
    Taken s (handAt s d y) x ↔ Taken s d x := by
  simp only [Taken, outputPos_handAt]
  refine exists_congr fun p => and_congr_right fun hp => ?_
  have hne : ¬outputPos s d y.1 = some p := fun hq => h (outputPos_inj hp hq)
  rw [handAt_getElem?, if_neg hne]

theorem handAll_cons (d : Device (Object δ) η) (y : UInt16 × UInt16) (ys : List (UInt16 × UInt16)) :
    handAll s d (y :: ys) = handAll s (handAt s d y) ys := by
  rw [handAll, handAll, List.foldl_cons]

theorem handAll_getElem? {ys : List (UInt16 × UInt16)} {p : Nat}
    (h : ∀ y ∈ ys, outputPos s d y.1 ≠ some p) :
    (handAll s d ys).xObjList[p]? = d.xObjList[p]? := by
  induction ys generalizing d with
  | nil => rfl
  | cons y ys ih =>
    rw [handAll_cons]
    refine (ih fun z hz => ?_).trans ?_
    · rw [outputPos_handAt]
      exact h z (List.mem_cons_of_mem _ hz)
    · rw [handAt_getElem?, if_neg (h y List.mem_cons_self)]

theorem handAll_getElem?_of_mem {ys : List (UInt16 × UInt16)} {y : UInt16 × UInt16} {p : Nat}
    (hnd : (ys.map Prod.fst).Nodup) (hy : y ∈ ys) (hp : outputPos s d y.1 = some p) :
    (handAll s d ys).xObjList[p]? = d.xObjList[p]?.map fun obj => (s.hand obj y.2).2 := by
  induction ys generalizing d with
  | nil => simp at hy
  | cons z ys ih =>
    rw [List.map_cons, List.nodup_cons] at hnd
    rw [handAll_cons]
    obtain rfl | hy := List.mem_cons.mp hy
    · refine (handAll_getElem? fun x hx hq => ?_).trans ?_
      · rw [outputPos_handAt] at hq
        exact hnd.1 (outputPos_inj hp hq ▸ List.mem_map_of_mem hx)
      · rw [handAt_getElem?, if_pos hp]
    · have hne : ¬outputPos s d z.1 = some p := fun hq =>
        hnd.1 (outputPos_inj hq hp ▸ List.mem_map_of_mem hy)
      refine (ih hnd.2 hy (by rwa [outputPos_handAt])).trans ?_
      rw [handAt_getElem?, if_neg hne]

theorem handAll_nIDs (d : Device (Object δ) η) (ys : List (UInt16 × UInt16)) :
    (handAll s d ys).xObjList.map Object.nID = d.xObjList.map Object.nID := by
  induction ys generalizing d with
  | nil => rfl
  | cons y ys ih => rw [handAll_cons, ih, handAt_nIDs]

end Writes

section Run

theorem regWrite_below {ω υ : Type} (fw : Firmware ω υ η) {i : Nat} (hi : i < 1000)
    (usValue : UInt16) (d : Device ω η) :
    regWrite fw (UInt16.ofNat i) usValue d = (retModbusInvalidAddress, d) := by
  have hn : (UInt16.ofNat i).toNat = i := by
    rw [UInt16.toNat_ofNat']
    omega
  have hg : i / 100 ≠ regSystemBase ∧ i / 100 ≠ regStatisticsBase := by
    simp only [regSystemBase, regStatisticsBase]
    omega
  rw [regWrite, hn, if_neg hg.1, if_neg hg.2]
  split <;> rfl

theorem writeSingleRegister_hands (s : Services δ η) (d : Device (Object δ) η)
    (y : UInt16 × UInt16) :
    (writeSingleRegister s.firmware y.1 y.2 d).2 = handAt s d y ∧
      ((writeSingleRegister s.firmware y.1 y.2 d).1 = retOk ↔ Taken s d y) := by
  obtain ⟨x, usValue⟩ := y
  have hgroup := groupClass_eq_classDO_iff x
  rw [writeSingleRegister, handAt, Taken, outputPos]
  by_cases h0 : x.toNat / 1000 = 0
  · have hne : ¬groupClass x = classDO := fun h => absurd (hgroup.mp h) (by omega)
    rw [if_pos h0, regWrite_below _ (Nat.mod_lt _ (by decide)), if_neg hne]
    exact ⟨rfl, iff_of_false (by decide : retModbusInvalidAddress ≠ retOk) (by simp)⟩
  rw [if_neg h0]
  by_cases hc : groupClass x = classDO
  · rw [if_pos hc, if_pos hc, hc]
    cases hp : objIndexAt s.firmware classDO classMask d.xObjList (x.toNat % 1000) with
    | none =>
      have hg : objGetAt s.firmware classDO classMask (x.toNat % 1000) d = none := by
        rw [objGetAt, hp]
        rfl
      rw [hg]
      exact ⟨rfl, iff_of_false (by decide : retModbusInvalidAddress ≠ retOk) (by simp)⟩
    | some p =>
      have hg : objGetAt s.firmware classDO classMask (x.toNat % 1000) d =
          d.xObjList[p]?.map fun obj => (p, obj) := by
        rw [objGetAt, hp]
        cases ho : d.xObjList[p]? <;> simp [ho]
      rw [hg]
      cases ho : d.xObjList[p]? with
      | none =>
        refine ⟨?_, iff_of_false (by decide : retModbusInvalidAddress ≠ retOk) (by simp [ho])⟩
        change d = { d with xObjList := d.xObjList.modify p _ }
        rw [List.modify_eq_self (List.getElem?_eq_none_iff.mp ho)]
      | some obj =>
        refine ⟨?_, ?_⟩
        · change { d with xObjList := d.xObjList.set p (s.hand obj usValue).2 } =
            { d with xObjList := d.xObjList.modify p _ }
          rw [List.modify_eq_set_getElem?, ho]
          rfl
        · change (if (s.hand obj usValue).1 ≠ retOk then retModbusInvalidData else retOk) = retOk ↔ _
          by_cases hr : (s.hand obj usValue).1 = retOk
          · simp [hr, ho]
          · simp [hr, ho, show retModbusInvalidData ≠ retOk by decide]
  · rw [if_neg hc, if_neg hc]
    exact ⟨rfl, iff_of_false (by decide : retModbusInvalidAddress ≠ retOk) (by simp)⟩

theorem writeMultiRegisters_taken {usAddress : UInt16} {values : List UInt16}
    (hnd : ((requested usAddress values).map Prod.fst).Nodup)
    (h : ∀ y ∈ requested usAddress values, Taken s d y) :
    (writeMultiRegisters s.firmware usAddress values d).1 = retOk := by
  induction values generalizing usAddress d with
  | nil => rfl
  | cons usValue values ih =>
    obtain ⟨hd, hok⟩ := writeSingleRegister_hands s d (usAddress, usValue)
    rw [requested, List.map_cons, List.nodup_cons] at hnd
    rw [writeMultiRegisters]
    dsimp only at hd hok ⊢
    rw [hok.mpr (h _ List.mem_cons_self), if_neg (by simp), hd]
    refine ih hnd.2 fun y hy => ?_
    have hne : y.1 ≠ usAddress := fun he => hnd.1 (List.mem_map.mpr ⟨y, hy, he⟩)
    exact (taken_handAt hne).mpr (h y (List.mem_cons_of_mem _ hy))

/-- The range is written up to the first register that refuses. -/
theorem writeMultiRegisters_refused {usAddress : UInt16} {values : List UInt16}
    (hnd : ((requested usAddress values).map Prod.fst).Nodup)
    {done rest : List (UInt16 × UInt16)} {x : UInt16 × UInt16}
    (hsplit : requested usAddress values = done ++ x :: rest)
    (hdone : ∀ y ∈ done, Taken s d y) (hx : ¬Taken s d x) :
    (writeMultiRegisters s.firmware usAddress values d).1 ≠ retOk ∧
      (writeMultiRegisters s.firmware usAddress values d).2 = handAll s d (done ++ [x]) := by
  induction values generalizing usAddress d done with
  | nil => simp [requested] at hsplit
  | cons usValue values ih =>
    obtain ⟨hd, hok⟩ := writeSingleRegister_hands s d (usAddress, usValue)
    rw [requested, List.map_cons, List.nodup_cons] at hnd
    rw [requested] at hsplit
    rw [writeMultiRegisters]
    dsimp only at hd hok ⊢
    cases done with
    | nil =>
      obtain ⟨rfl, rfl⟩ := List.cons.inj hsplit
      have hno : (writeSingleRegister s.firmware usAddress usValue d).1 ≠ retOk := hok.not.mpr hx
      rw [if_pos hno]
      refine ⟨hno, ?_⟩
      rw [List.nil_append, handAll_cons, handAll, List.foldl_nil]
      exact hd
    | cons z done =>
      rw [List.cons_append] at hsplit
      obtain ⟨rfl, htail⟩ := List.cons.inj hsplit
      rw [hok.mpr (hdone _ List.mem_cons_self), if_neg (by simp), hd, List.cons_append, handAll_cons]
      have hother {y : UInt16 × UInt16} (hy : y ∈ done ++ x :: rest) :
          Taken s (handAt s d (usAddress, usValue)) y ↔ Taken s d y := by
        refine taken_handAt fun he => hnd.1 (List.mem_map.mpr ⟨y, ?_, he⟩)
        rw [htail]
        exact hy
      refine ih hnd.2 htail (fun y hy => ?_) ?_
      · exact (hother (List.mem_append_left _ hy)).mpr (hdone y (List.mem_cons_of_mem _ hy))
      · exact (hother (List.mem_append_right _ List.mem_cons_self)).not.mpr hx

theorem exists_first_refused {α : Type} (P : α → Prop) (l : List α) :
    (∀ y ∈ l, P y) ∨ ∃ done x rest, l = done ++ x :: rest ∧ (∀ y ∈ done, P y) ∧ ¬P x := by
  induction l with
  | nil => exact .inl (by simp)
  | cons a l ih =>
    by_cases ha : P a
    · obtain hall | ⟨done, x, rest, rfl, hdone, hx⟩ := ih
      · exact .inl (List.forall_mem_cons.mpr ⟨ha, hall⟩)
      · exact .inr ⟨a :: done, x, rest, rfl, List.forall_mem_cons.mpr ⟨ha, hdone⟩, hx⟩
    · exact .inr ⟨[], a, l, rfl, by simp, ha⟩

end Run

section Registers

theorem handAll_frame (d : Device (Object δ) η) (ys : List (UInt16 × UInt16)) :
    handAll s d ys = { d with xObjList := (handAll s d ys).xObjList } := by
  induction ys generalizing d with
  | nil => rfl
  | cons y ys ih =>
    have hone : handAt s d y = { d with xObjList := (handAt s d y).xObjList } := by
      rw [handAt]
      split <;> rfl
    rw [handAll_cons, ih, hone]

variable {ω υ : Type} {fw : Firmware ω υ η}

theorem inputRegister_eq (d : Device ω η) (usAddress : UInt16) :
    inputRegister fw d usAddress =
      (objIndexAt fw (groupClass usAddress) classMask d.xObjList (usAddress.toNat % 1000)).bind
        fun p => (d.xObjList[p]?).map fw.toINT16 := by
  rw [inputRegister, objGetAt]
  cases objIndexAt fw (groupClass usAddress) classMask d.xObjList (usAddress.toNat % 1000) with
  | none => rfl
  | some p => cases ho : d.xObjList[p]? <;> simp [ho]

theorem readSensorCount_congr (fw : Firmware ω υ η) {d d' : Device ω η}
    (hid : d'.xObjList.map fw.nID = d.xObjList.map fw.nID) (ucClass : UInt32) :
    readSensorCount fw ucClass d' = readSensorCount fw ucClass d := by
  have hids (objs : List ω) : objs.countP (objMatches fw (ucClass <<< classShift) classMask) =
      (objs.map fw.nID).countP fun nID => nID &&& objSystem == 0 &&
        (ucClass <<< classShift == typeUnknown ||
          nID &&& classMask == ucClass <<< classShift &&& classMask) := by
    rw [List.countP_map]
    rfl
  rw [readSensorCount, readSensorCount, objCount, objCount, hids, hids, hid]

/-- The tables show of the objects the IDs and the values. -/
theorem registers_congr (fw : Firmware ω υ η) {d d' : Device ω η}
    (hid : d'.xObjList.map fw.nID = d.xObjList.map fw.nID)
    (hv : d'.xObjList.map fw.toINT16 = d.xObjList.map fw.toINT16) (x : UInt16) :
    inputRegister fw d' x = inputRegister fw d x ∧
      holdingRegister fw d' x = holdingRegister fw d x := by
  have hinput : inputRegister fw d' x = inputRegister fw d x := by
    rw [inputRegister_eq, inputRegister_eq, objIndexAt_congr fw fw hid]
    simp only [← List.getElem?_map, hv]
  refine ⟨hinput, ?_⟩
  have hout := hinput
  rw [inputRegister, inputRegister] at hout
  rw [holdingRegister, holdingRegister, hout]
  simp only [readSensorCount_congr fw hid]

theorem inputRegister_output {x : UInt16} {p : Nat} (h : outputPos s d x = some p) :
    inputRegister s.firmware d x = (d.xObjList[p]?).map fun obj => toINT16 obj.pValue := by
  rw [outputPos] at h
  split at h
  · next hc =>
    rw [inputRegister_eq, hc, h]
    rfl
  · cases h

theorem sameRegisters_handAll_iff {ys : List (UInt16 × UInt16)} (hnd : (ys.map Prod.fst).Nodup) :
    SameRegisters s d (handAll s d ys) ↔ ∀ y ∈ ys, Unmoved s d y := by
  constructor
  · intro hs y hy p hp obj hobj
    have hp' : outputPos s (handAll s d ys) y.1 = some p :=
      (outputPos_congr (handAll_nIDs d ys) y.1).trans hp
    have hi := hs.input y.1
    rw [inputRegister_output hp, inputRegister_output hp', handAll_getElem?_of_mem hnd hy hp,
      hobj] at hi
    exact Option.some.inj hi
  · intro hu
    have hv : (handAll s d ys).xObjList.map s.firmware.toINT16 =
        d.xObjList.map s.firmware.toINT16 := by
      apply List.ext_getElem?
      intro p
      rw [List.getElem?_map, List.getElem?_map]
      by_cases hp : ∃ y ∈ ys, outputPos s d y.1 = some p
      · obtain ⟨y, hy, hp⟩ := hp
        rw [handAll_getElem?_of_mem hnd hy hp, Option.map_map]
        cases hobj : d.xObjList[p]? with
        | none => rfl
        | some obj => exact congrArg some (hu y hy p hp obj hobj)
      · rw [handAll_getElem? fun y hy h => hp ⟨y, hy, h⟩]
    have hr := registers_congr s.firmware (handAll_nIDs d ys) hv
    refine ⟨fun x => (hr x).2, fun x => (hr x).1, fun c => ?_, ?_⟩
    · rw [handAll_frame]
      cases c <;> rfl
    · rw [handAll_frame]

end Registers

/-- A write that stops at a register leaves the others as they were where none of those before it
moved. -/
theorem writeMultiRegisters_atomic_iff (s : Services δ η) (d : Device (Object δ) η)
    (usAddress usQuantity : UInt16) (pValues : Nat → UInt16) :
    let values := (List.range usQuantity.toNat).map pValues
    let r := writeMultiRegisters s.firmware usAddress values d
    (r.1 ≠ retOk → SameRegisters s d r.2) ↔ RangeUnmoved s d (requested usAddress values) := by
  intro values r
  have hlen : values.length ≤ 65536 := by
    have := usQuantity.toNat_lt
    simp only [values, List.length_map, List.length_range]
    omega
  have hnd : ((requested usAddress values).map Prod.fst).Nodup := by
    rw [requested_fst]
    exact addresses_nodup hlen
  have hfirst {done rest : List (UInt16 × UInt16)} {x : UInt16 × UInt16}
      (hsplit : requested usAddress values = done ++ x :: rest) :
      ((done ++ [x]).map Prod.fst).Nodup := by
    have hsub : (done ++ [x]).Sublist (requested usAddress values) := by
      rw [hsplit]
      exact (List.Sublist.refl done).append (List.singleton_sublist.mpr List.mem_cons_self)
    exact hnd.sublist (hsub.map Prod.fst)
  constructor
  · intro hatomic done x rest hsplit hdone hx
    obtain ⟨hfail, hstate⟩ := writeMultiRegisters_refused hnd hsplit hdone hx
    have hsame := hatomic hfail
    rw [hstate] at hsame
    exact (sameRegisters_handAll_iff (hfirst hsplit)).mp hsame
  · intro hunmoved hfail
    obtain hall | ⟨done, x, rest, hsplit, hdone, hx⟩ :=
      exists_first_refused (Taken s d) (requested usAddress values)
    · exact absurd (writeMultiRegisters_taken hnd hall) hfail
    · rw [(writeMultiRegisters_refused hnd hsplit hdone hx).2]
      exact (sameRegisters_handAll_iff (hfirst hsplit)).mpr (hunmoved done x rest hsplit hdone hx)

/-- A digital output that takes a value reads the same only where it read that value before. -/
theorem digitalOutput_unmoved_iff {γ : Type} {gpioSet : γ → UInt32 → Ret × γ}
    {allocZero : Nat → η → Bool × η} {rand : η → UInt16 × η} {obj : Object γ} {usValue : UInt16}
    (hdio : obj.pValue.xType = .dio)
    (hok : ((outputServices gpioSet allocZero rand).hand obj usValue).1 = retOk) :
    toINT16 ((outputServices gpioSet allocZero rand).hand obj usValue).2.pValue =
      toINT16 obj.pValue ↔ toINT16 obj.pValue = usValue := by
  simp only [Services.hand, Services.setValue, outputServices, doSetValue, setULONG, setValid,
    if_true] at hok ⊢
  by_cases hsame : obj.pValue.bValid = true ∧ obj.pValue.xData = usValue.toUInt32
  · simp [hsame, toINT16, hdio]
  · rw [if_neg hsame] at hok ⊢
    by_cases hg : (gpioSet obj.driver usValue.toUInt32).1 = retOk
    · simp only [hg, ne_eq, not_true_eq_false, if_false]
      have hread : toINT16 { obj.pValue with
          xData := usValue.toUInt32, ulFailCount := 0, bValid := true } = usValue := by
        simp [toINT16, hdio]
      rw [hread, eq_comm]
    · rw [if_pos hg] at hok
      exact absurd hok retError_ne

def pinServices : Services UInt32 Unit :=
  outputServices (fun _ ulValue => (retOk, ulValue)) (fun _ _ => (true, ())) fun _ => (0, ())

/-- A slave with one digital output, which is off. -/
def oneOutput : Device (Object UInt32) Unit :=
  { bareDevice with xObjList := [⟨0x06000001, ⟨.dio, true, 0, 0⟩, 0⟩] }

/-- The output is set before the register behind it turns out to be missing. -/
theorem writeMultiRegisters_partial :
    let r := writeMultiRegisters pinServices.firmware 6000 [1, 1] oneOutput
    ¬(r.1 ≠ retOk → SameRegisters pinServices oneOutput r.2) := by
  intro r hatomic
  have hs := hatomic (by decide)
  exact absurd (hs.input 6000) (by decide)

end EdgeNode.Modbus
