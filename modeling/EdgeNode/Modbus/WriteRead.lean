import EdgeNode.Modbus.Outputs

/-! Write and read of multiple registers, with a note of the values handed to the register file. -/

namespace EdgeNode.Modbus

open BufferAccess Values

section Definitions

variable {δ η : Type}

/-- The writes of a range that the slave was asked for, oldest first. -/
abbrev Notes := List (UInt16 × List UInt16)

variable (s : Services δ η)

/-- The services, with the notes kept beside the kernel. -/
def Services.noted : Services δ (η × Notes) where
  fSet := s.fSet
  allocZero ulSize k := ((s.allocZero ulSize k.1).1, ((s.allocZero ulSize k.1).2, k.2))
  rand k := ((s.rand k.1).1, ((s.rand k.1).2, k.2))

def note (usAddress : UInt16) (values : List UInt16) (d : Device (Object δ) (η × Notes)) :
    Device (Object δ) (η × Notes) :=
  { d with kernel := (d.kernel.1, d.kernel.2 ++ [(usAddress, values)]) }

/-- The general model, which notes each write of a range before it does it. -/
def notingModel : SlaveModel (Object δ) Value (η × Notes) :=
  { generalModel s.noted.firmware with
    fWriteMultiRegisters := some fun usAddress values d =>
      writeMultiRegisters s.noted.firmware usAddress values (note usAddress values d) }

variable (mem : Nat → UInt8) (n m : Nat) (d : Device (Object δ) (η × Notes))

/-- A write and read that the slave carries out. -/
def WriteReadAccepted : Prop :=
  mem 0 = 23 ∧
    (processFunction s.noted.firmware (notingModel s) n m (mem 0) mem d).val.1 = retOk

/-- The values in the field of the request that the byte count tells the length of. -/
def carriedValues : List UInt16 := words (bytesAt mem 10 (mem 9).toNat)

/-- What a write and read is to do: it writes the carried values to the write range, and answers with
the holding registers of the read range as they are then. -/
structure WriteReadDone : Prop where
  wrote : (process s.noted.firmware (notingModel s) n m mem d).state.kernel.2 =
    d.kernel.2 ++ [(field mem 5, carriedValues mem)]
  replied : ∃ values : List UInt16,
    (addresses (field mem 1) (field mem 3).toNat).map (holdingRegister s.noted.firmware
      (process s.noted.firmware (notingModel s) n m mem d).state) = values.map some ∧
    Holds (process s.noted.firmware (notingModel s) n m mem d).writes
      (mem 0 :: UInt8.ofNat ((field mem 3).toNat * 2) :: values.flatMap htons)

/-- The words four bytes before the values are the values, and the read range has the same register
in both tables everywhere. -/
def WriteReadKept : Prop :=
  words (bytesAt mem 6 (2 * (field mem 7).toNat)) = carriedValues mem ∧
    ∀ x ∈ addresses (field mem 1) (field mem 3).toNat,
      holdingRegister s.noted.firmware d x = inputRegister s.noted.firmware d x

end Definitions

variable {δ η : Type} {s : Services δ η}

section Tables

theorem words_flatMap_htons (values : List UInt16) : words (values.flatMap htons) = values := by
  induction values with
  | nil => rfl
  | cons usValue values ih =>
    change ntohs _ _ :: words (values.flatMap htons) = _
    rw [ntohs_htons, ih]

theorem objIndexAt_matches {ω υ : Type} {fw : Firmware ω υ η} {nType nMask : UInt32} {objs : List ω}
    {i p : Nat} (h : objIndexAt fw nType nMask objs i = some p) :
    ∃ obj ∈ objs[p]?, objMatches fw nType nMask obj = true := by
  induction objs generalizing i p with
  | nil => cases h
  | cons obj objs ih =>
    simp only [objIndexAt] at h
    have hback {i : Nat} (h : (objIndexAt fw nType nMask objs i).map (· + 1) = some p) :
        ∃ o ∈ (obj :: objs)[p]?, objMatches fw nType nMask o = true := by
      obtain ⟨q, hq, rfl⟩ := Option.map_eq_some_iff.mp h
      exact ih hq
    by_cases hm : objMatches fw nType nMask obj = true
    · rw [if_pos hm] at h
      cases i with
      | zero =>
        cases h
        exact ⟨obj, rfl, hm⟩
      | succ i => exact hback h
    · rw [if_neg hm] at h
      exact hback h

theorem writeMultiRegisters_hands (s : Services δ η) (d : Device (Object δ) η) (usAddress : UInt16)
    (values : List UInt16) : ∃ ys, (writeMultiRegisters s.firmware usAddress values d).2 =
      handAll s d ys := by
  induction values generalizing usAddress d with
  | nil => exact ⟨[], rfl⟩
  | cons usValue values ih =>
    have hd := (writeSingleRegister_hands s d (usAddress, usValue)).1
    rw [writeMultiRegisters]
    dsimp only at hd ⊢
    split
    · refine ⟨[(usAddress, usValue)], ?_⟩
      rw [handAll_cons, handAll, List.foldl_nil]
      exact hd
    · obtain ⟨ys, hys⟩ := ih (handAt s d (usAddress, usValue)) (usAddress + 1)
      exact ⟨(usAddress, usValue) :: ys, by rw [handAll_cons, hd, hys]⟩

theorem inputRegister_handAll_below {d : Device (Object δ) η} (ys : List (UInt16 × UInt16))
    {x : UInt16} (hx : x.toNat < 1000) :
    inputRegister s.firmware (handAll s d ys) x = inputRegister s.firmware d x := by
  have hg : groupClass x = 0 := by
    rw [groupClass, Nat.div_eq_of_lt hx]
    rfl
  rw [inputRegister_eq, inputRegister_eq, objIndexAt_congr s.firmware s.firmware (handAll_nIDs d ys), hg]
  cases hp : objIndexAt s.firmware 0 classMask d.xObjList (x.toNat % 1000) with
  | none => rfl
  | some p =>
    obtain ⟨obj, hobj, hm⟩ := objIndexAt_matches hp
    have hne : ∀ y ∈ ys, outputPos s d y.1 ≠ some p := by
      intro y _ hy
      rw [outputPos] at hy
      split at hy
      · obtain ⟨obj', hobj', hm'⟩ := objIndexAt_matches hy
        obtain rfl := Option.some.inj (hobj.symm.trans hobj')
        simp only [objMatches, Bool.and_eq_true, Bool.or_eq_true, beq_iff_eq] at hm hm'
        have hz := hm.2.resolve_left (by decide)
        have ho := hm'.2.resolve_left (by decide)
        exact absurd (hz.symm.trans ho) (by decide)
      · cases hy
    rw [Option.bind_some, Option.bind_some, handAll_getElem? hne]

theorem isNone_inputRegister_congr {ω υ : Type} (fw : Firmware ω υ η) {d d' : Device ω η}
    (hid : d'.xObjList.map fw.nID = d.xObjList.map fw.nID) (x : UInt16) :
    inputRegister fw d' x = none ↔ inputRegister fw d x = none := by
  rw [inputRegister_eq, inputRegister_eq, objIndexAt_congr fw fw hid]
  cases objIndexAt fw (groupClass x) classMask d.xObjList (x.toNat % 1000) with
  | none => exact Iff.rfl
  | some p =>
    have hlen : d'.xObjList.length = d.xObjList.length := by
      simpa only [List.length_map] using congrArg List.length hid
    rw [Option.bind_some, Option.bind_some, Option.map_eq_none_iff, Option.map_eq_none_iff,
      List.getElem?_eq_none_iff, List.getElem?_eq_none_iff, hlen]

/-- Whether the tables agree at an address does not change with the values of the outputs. -/
theorem tables_agree_handAll_iff {d : Device (Object δ) η} (ys : List (UInt16 × UInt16))
    (x : UInt16) :
    holdingRegister s.firmware (handAll s d ys) x = inputRegister s.firmware (handAll s d ys) x ↔
      holdingRegister s.firmware d x = inputRegister s.firmware d x := by
  have hids : (handAll s d ys).xObjList.map Object.nID = d.xObjList.map Object.nID :=
    handAll_nIDs d ys
  by_cases h0 : x.toNat < 1000
  · have hcount (ucClass : UInt32) :
        readSensorCount s.firmware ucClass (handAll s d ys) =
          readSensorCount s.firmware ucClass d := readSensorCount_congr s.firmware hids ucClass
    rw [inputRegister_handAll_below ys h0, holdingRegister, holdingRegister, if_pos h0, if_pos h0]
    simp only [hcount]
  · by_cases hc : groupClass x = classDO
    · have hsame (d : Device (Object δ) η) :
          holdingRegister s.firmware d x = inputRegister s.firmware d x := by
        rw [holdingRegister, if_neg h0, if_pos hc, inputRegister]
      exact iff_of_true (hsame _) (hsame d)
    · have hnone (d : Device (Object δ) η) : holdingRegister s.firmware d x = none := by
        rw [holdingRegister, if_neg h0, if_neg hc]
      rw [hnone, hnone, eq_comm, isNone_inputRegister_congr s.firmware hids, eq_comm]

end Tables

section Run

variable {mem : Nat → UInt8} {n m : Nat} {d : Device (Object δ) (η × Notes)}

theorem readInputRegisters_values {ω υ : Type} {fw : Firmware ω υ η} {usAddress : UInt16} {k : Nat}
    {d : Device ω η} (h : (readInputRegisters fw usAddress d k).1 = retOk) :
    (addresses usAddress k).map (inputRegister fw d) =
      (readInputRegisters fw usAddress d k).2.map some := by
  by_cases hmissing : ∃ x ∈ addresses usAddress k, inputRegister fw d x = none
  · rw [readInputRegisters_missing fw hmissing] at h
    exact absurd h (by decide)
  · obtain ⟨values, hv⟩ := exists_values hmissing
    rw [readInputRegisters_present fw hv, hv]

/-- The device when the write is done, and the outcome of the read that follows. -/
def writeNoted (s : Services δ η) (mem : Nat → UInt8) (d : Device (Object δ) (η × Notes)) :
    Ret × Device (Object δ) (η × Notes) :=
  let values := words (bytesAt mem 6 (2 * (field mem 7).toNat))
  writeMultiRegisters s.noted.firmware (field mem 5) values
    (note (field mem 5) values (afterAlloc s.noted.firmware (2 * (field mem 7).toNat) d))

theorem writeReadAccepted_run (h : WriteReadAccepted s mem n m d) :
    let run := process s.noted.firmware (notingModel s) n m mem d
    run.state = afterAlloc s.noted.firmware (2 * (field mem 3).toNat) (writeNoted s mem d).2 ∧
      ∃ values : List UInt16, (addresses (field mem 1) (field mem 3).toNat).map
          (inputRegister s.noted.firmware run.state) = values.map some ∧
        run.writes =
          spread 0 (mem 0 :: UInt8.ofNat ((field mem 3).toNat * 2) :: values.flatMap htons) := by
  intro run
  obtain ⟨hfc, hok⟩ := h
  have hp : processFunction s.noted.firmware (notingModel s) n m (mem 0) =
      processWriteReadMultiRegisters s.noted.firmware (notingModel s) n m := by
    rw [hfc]
    rfl
  have hw : (notingModel s).fWriteMultiRegisters = some fun usAddress values d =>
      writeMultiRegisters s.noted.firmware usAddress values (note usAddress values d) := rfl
  have hr : (notingModel s).fReadInputRegisters = some fun a k d =>
      (readInputRegisters s.noted.firmware a d k, d) := rfl
  have hback : writeMultiRegisters s.noted.firmware (field mem 5)
      (words (bytesAt mem 6 (2 * (field mem 7).toNat)))
      (note (field mem 5) (words (bytesAt mem 6 (2 * (field mem 7).toNat)))
        (afterAlloc s.noted.firmware (2 * (field mem 7).toNat) d)) = writeNoted s mem d := rfl
  let d' := afterAlloc s.noted.firmware (2 * (field mem 3).toNat) (writeNoted s mem d).2
  let r := readInputRegisters s.noted.firmware (field mem 1) d' (field mem 3).toNat
  have hread : readInputRegisters s.noted.firmware (field mem 1) (afterAlloc s.noted.firmware
      (2 * (field mem 3).toNat) (writeNoted s mem d).2) (field mem 3).toNat = r := rfl
  have htake : r.2.take (field mem 3).toNat = r.2 :=
    List.take_of_length_le (Nat.le_of_eq (readInputRegisters_length _ _ _ _))
  rw [hp] at hok
  change Yields (processWriteReadMultiRegisters s.noted.firmware (notingModel s) n m)
    (fun r _ _ => r.1 = retOk) mem d at hok
  simp only [processWriteReadMultiRegisters, processReadBack, yields_ite, yields_bind,
    yields_peekWord, yields_peek, yields_pure, yields_alloc, yields_peekBytes, yields_call, hw, hr,
    hback, hread, show retInvalidMsg ≠ retOk by decide, show retBufferTooSmall ≠ retOk by decide,
    show retNotEnoughMemory ≠ retOk by decide, if_false_right, imp_false] at hok
  obtain ⟨hn, hok⟩ := hok
  obtain ⟨hlen, hok⟩ := hok hn
  obtain ⟨hm, hok⟩ := hok hlen
  obtain ⟨hmem, hwok, hok⟩ := hok hm
  have hwok := not_not.mp fun hne => hne (hwok hne)
  obtain ⟨hmem', hrok, -⟩ := hok (not_not.mpr hwok)
  have hrok := not_not.mp fun hne => hne (hrok hne)
  suffices hrun : Yields (process s.noted.firmware (notingModel s) n m) (fun _ t ws => t = d' ∧
      ws = spread 0 (mem 0 :: UInt8.ofNat ((field mem 3).toNat * 2) :: r.2.flatMap htons)) mem d by
    refine ⟨hrun.1, r.2, ?_, hrun.2⟩
    rw [show run.state = d' from hrun.1]
    exact readInputRegisters_values hrok
  simp only [process, yields_bind, yields_peek, hp, processWriteReadMultiRegisters, processReadBack,
    yields_ite, yields_peekWord, yields_pure, yields_alloc, yields_peekBytes, yields_call, hw, hr,
    hback, hread, hmem, hmem', hwok, hrok, htake, if_true, ne_eq, not_true_eq_false, false_imp_iff,
    not_false_eq_true, true_imp_iff, true_and]
  refine ⟨fun h => absurd h hn, fun _ => ⟨fun h => absurd h hlen, fun _ => ⟨fun h => absurd h hm,
    fun _ => ?_⟩⟩⟩
  simp only [yields_poke, yields_pokeBytes, replyException, isException_retOk, Bool.false_eq_true,
    if_false, yields_pure, List.nil_append, List.append_nil]
  exact ⟨rfl, rfl⟩

/-- What the write leaves: the note of the values taken six bytes into the request, and outputs that
were handed values. -/
theorem writeNoted_hands (s : Services δ η) (mem : Nat → UInt8)
    (d : Device (Object δ) (η × Notes)) :
    ∃ d₀ ys, d₀.xObjList = d.xObjList ∧ (writeNoted s mem d).2 = handAll s.noted d₀ ys ∧
      (writeNoted s mem d).2.kernel.2 =
        d.kernel.2 ++ [(field mem 5, words (bytesAt mem 6 (2 * (field mem 7).toNat)))] := by
  let values := words (bytesAt mem 6 (2 * (field mem 7).toNat))
  let d₀ := note (field mem 5) values
    (afterAlloc s.noted.firmware (2 * (field mem 7).toNat) d)
  obtain ⟨ys, hys⟩ := writeMultiRegisters_hands s.noted d₀ (field mem 5) values
  have hback : (writeNoted s mem d).2 = handAll s.noted d₀ ys := hys
  refine ⟨d₀, ys, rfl, hback, ?_⟩
  rw [hback, handAll_frame]
  rfl

theorem tables_congr {d d' : Device (Object δ) η} (h : d'.xObjList = d.xObjList) (x : UInt16) :
    inputRegister s.firmware d' x = inputRegister s.firmware d x ∧
      holdingRegister s.firmware d' x = holdingRegister s.firmware d x :=
  registers_congr s.firmware (by rw [h]) (by rw [h]) x

end Run

theorem writeRead_done_iff (s : Services δ η) (mem : Nat → UInt8) (n m : Nat)
    (d : Device (Object δ) (η × Notes)) (h : WriteReadAccepted s mem n m d) :
    WriteReadDone s mem n m d ↔ WriteReadKept s mem d := by
  obtain ⟨hstate, values, hvalues, hwrites⟩ := writeReadAccepted_run h
  obtain ⟨d₀, ys, hobjs, hback, hkernel⟩ := writeNoted_hands s mem d
  let d' := (process s.noted.firmware (notingModel s) n m mem d).state
  have hobjs' : d'.xObjList = (handAll s.noted d₀ ys).xObjList := by
    rw [← hback]
    exact (congrArg Device.xObjList hstate).trans rfl
  have hagree (x : UInt16) :
      holdingRegister s.noted.firmware d' x = inputRegister s.noted.firmware d' x ↔
        holdingRegister s.noted.firmware d x = inputRegister s.noted.firmware d x := by
    rw [(tables_congr hobjs' x).1, (tables_congr hobjs' x).2, tables_agree_handAll_iff,
      (tables_congr hobjs x).1, (tables_congr hobjs x).2]
  have hnotes : d'.kernel.2 =
      d.kernel.2 ++ [(field mem 5, words (bytesAt mem 6 (2 * (field mem 7).toNat)))] := by
    rw [← hkernel]
    exact (congrArg (fun d => d.kernel.2) hstate).trans rfl
  constructor
  · rintro ⟨hwrote, values', hholding, hholds⟩
    have hsame : [(field mem 5, words (bytesAt mem 6 (2 * (field mem 7).toNat)))] =
        [(field mem 5, carriedValues mem)] := List.append_cancel_left (hnotes.symm.trans hwrote)
    have hlen : values.length = values'.length := by
      have hv := congrArg List.length hvalues
      have hh := congrArg List.length hholding
      simp only [List.length_map] at hv hh
      omega
    rw [hwrites, holds_spread_iff (by simp only [List.length_cons, flatMap_htons_length, hlen])]
      at hholds
    have hbytes := (List.cons.inj (List.cons.inj hholds).2).2
    have hread : values = values' := by
      rw [← words_flatMap_htons values, hbytes, words_flatMap_htons]
    subst hread
    rw [← hholding] at hvalues
    exact ⟨(Prod.mk.inj (List.cons.inj hsame).1).2,
      fun x hx => (hagree x).mp (List.map_inj_left.mp hvalues x hx).symm⟩
  · rintro ⟨hcarried, hread⟩
    refine ⟨?_, values, ?_, ?_⟩
    · rw [← hcarried]
      exact hnotes
    · rw [← hvalues]
      exact List.map_inj_left.mpr fun x hx => (hagree x).mpr (hread x hx)
    · rw [hwrites, holds_spread_iff rfl]

/-- Write one value to the output at 6000 and read it back. -/
def writeReadRequest (hi lo : UInt8) (i : Nat) : UInt8 :=
  [23, 0x17, 0x70, 0, 1, 0x17, 0x70, 0, 1, 2, hi, lo].getD i 0

def oneOutputNoted : Device (Object UInt32) (Unit × Notes) :=
  { bareDevice with xObjList := oneOutput.xObjList, kernel := ((), []) }

instance (s : Services δ η) (mem : Nat → UInt8) (n m : Nat)
    (d : Device (Object δ) (η × Notes)) : Decidable (WriteReadAccepted s mem n m d) :=
  inferInstanceAs (Decidable (_ ∧ _))

/-- The value that stands four bytes earlier too. -/
theorem writeRead_done_coinciding :
    WriteReadDone pinServices (writeReadRequest 0x70 0) 12 260 oneOutputNoted := by
  refine (writeRead_done_iff pinServices _ 12 260 oneOutputNoted (by decide)).mpr ⟨by decide, ?_⟩
  intro x hx
  obtain rfl : x = 6000 := List.mem_singleton.mp hx
  rfl

/-- The output that the request turns off is turned on. -/
theorem writeRead_shifted : WriteReadAccepted pinServices (writeReadRequest 0 0) 12 260 oneOutputNoted ∧
    ¬WriteReadDone pinServices (writeReadRequest 0 0) 12 260 oneOutputNoted := by
  refine ⟨by decide, fun h => ?_⟩
  exact absurd h.wrote (by decide)

section Notes

def forget (d : Device (Object δ) (η × Notes)) : Device (Object δ) η :=
  ⟨d.xObjList, d.kernel.1, d.usResetKey, d.ulRxPkt, d.ulRxError, d.ulTxPkt, d.resetting, d.nullStores⟩

theorem objGetAt_forget (s : Services δ η) (d : Device (Object δ) (η × Notes))
    (nType nMask : UInt32) (i : Nat) :
    objGetAt s.firmware nType nMask i (forget d) = objGetAt s.noted.firmware nType nMask i d := by
  rw [objGetAt, objGetAt]
  have hp : objIndexAt s.firmware nType nMask (forget d).xObjList i =
      objIndexAt s.noted.firmware nType nMask d.xObjList i :=
    objIndexAt_congr s.noted.firmware s.firmware rfl i
  rw [hp]
  rfl

theorem writeSingleRegister_forget (s : Services δ η) (d : Device (Object δ) (η × Notes))
    (usAddress usValue : UInt16) :
    writeSingleRegister s.firmware usAddress usValue (forget d) =
      ((writeSingleRegister s.noted.firmware usAddress usValue d).1,
        forget (writeSingleRegister s.noted.firmware usAddress usValue d).2) := by
  have hi : usAddress.toNat % 1000 < 1000 := Nat.mod_lt _ (by decide)
  rw [writeSingleRegister, writeSingleRegister, regWrite_below _ hi, regWrite_below _ hi,
    objGetAt_forget]
  split
  · rfl
  split
  · cases objGetAt s.noted.firmware (groupClass usAddress) classMask (usAddress.toNat % 1000) d <;>
      rfl
  · rfl

theorem writeMultiRegisters_forget (s : Services δ η) (d : Device (Object δ) (η × Notes))
    (usAddress : UInt16) (values : List UInt16) :
    writeMultiRegisters s.firmware usAddress values (forget d) =
      ((writeMultiRegisters s.noted.firmware usAddress values d).1,
        forget (writeMultiRegisters s.noted.firmware usAddress values d).2) := by
  induction values generalizing usAddress d with
  | nil => rfl
  | cons usValue values ih =>
    rw [writeMultiRegisters, writeMultiRegisters, writeSingleRegister_forget]
    dsimp only
    split
    · rfl
    · exact ih _ _

theorem readInputRegisters_forget (s : Services δ η) (d : Device (Object δ) (η × Notes))
    (usAddress : UInt16) (k : Nat) :
    readInputRegisters s.firmware usAddress (forget d) k =
      readInputRegisters s.noted.firmware usAddress d k := by
  have hone (x : UInt16) : readInputRegister s.firmware x (forget d) =
      readInputRegister s.noted.firmware x d := by
    rw [readInputRegister, readInputRegister, objGetAt_forget]
    rfl
  induction k generalizing usAddress with
  | zero => rfl
  | succ k ih => rw [readInputRegisters, readInputRegisters, hone, ih]

theorem projects_alloc (s : Services δ η) {mem : Nat → UInt8} {α : Type} (ulSize : Nat)
    {p : Access (Device (Object δ) (η × Notes)) (Ret × Option α)}
    {q : Access (Device (Object δ) η) (Ret × Option α)} (h : Projects forget mem p q) :
    Projects forget mem (alloc s.noted.firmware ulSize p) (alloc s.firmware ulSize q) := by
  refine projects_bind (projects_call fun _ => rfl) fun ok => ?_
  cases ok
  · exact projects_pure _
  · exact h

theorem projects_peekWord {mem : Nat → UInt8} (i : Nat) :
    Projects (forget : Device (Object δ) (η × Notes) → _) mem (peekWord i) (peekWord i) :=
  projects_bind (projects_peek i) fun _ => projects_bind (projects_peek _) fun _ => projects_pure _

theorem processReadBack_forget (s : Services δ η) {mem : Nat → UInt8}
    (usReadAddress usReadQuantity : UInt16) :
    Projects forget mem
      (processReadBack s.noted.firmware (notingModel s) usReadAddress usReadQuantity)
      (processReadBack s.firmware (generalModel s.firmware) usReadAddress usReadQuantity) := by
  refine projects_alloc s _ (projects_bind (projects_call fun d => ?_) fun r => ?_)
  · exact congrArg (·, forget d) (readInputRegisters_forget s d usReadAddress _)
  · refine projects_ite (projects_pure _) ?_
    exact projects_bind (projects_peek 0) fun _ => projects_bind (projects_poke _ _) fun _ =>
      projects_bind (projects_poke _ _) fun _ => projects_bind (projects_pokeBytes _ _) fun _ =>
        projects_pure _

/-- Without the notes the noting slave is the slave. -/
theorem process_forget (s : Services δ η) {mem : Nat → UInt8} (n m : Nat) (hfc : mem 0 = 23) :
    Projects forget mem (process s.noted.firmware (notingModel s) n m)
      (process s.firmware (generalModel s.firmware) n m) := by
  have hwrite : Projects forget mem
      (processWriteReadMultiRegisters s.noted.firmware (notingModel s) n m)
      (processWriteReadMultiRegisters s.firmware (generalModel s.firmware) n m) := by
    refine projects_ite (projects_pure _) ?_
    refine projects_bind (projects_peekWord 5) fun usWriteAddress => ?_
    refine projects_bind (projects_peekWord 7) fun usWriteQuantity => ?_
    refine projects_bind (projects_peek 9) fun ucByteCount => ?_
    refine projects_bind (projects_peekWord 1) fun usReadAddress => ?_
    refine projects_bind (projects_peekWord 3) fun usReadQuantity => ?_
    refine projects_ite (projects_pure _) (projects_ite (projects_pure _) ?_)
    refine projects_alloc s _ (projects_bind (projects_peekBytes 6 _) fun bs => ?_)
    refine projects_bind (projects_call fun d => ?_) fun xRet => ?_
    · exact writeMultiRegisters_forget s (note usWriteAddress (words bs) d) usWriteAddress (words bs)
    · exact projects_ite (projects_pure _) (processReadBack_forget s _ _)
  have hreply (r : Reply) : Projects (forget : Device (Object δ) (η × Notes) → _) mem
      (replyException r) (replyException r) :=
    projects_ite (projects_bind (projects_peek 0) fun _ => projects_bind (projects_poke _ _) fun _ =>
      projects_bind (projects_poke _ _) fun _ => projects_pure _) (projects_pure r)
  refine projects_bind_peek ?_
  rw [hfc]
  exact projects_bind hwrite hreply

end Notes

end EdgeNode.Modbus
