import EdgeNode.Lib.Runs
import EdgeNode.Lib.Sweep
import EdgeNode.Obj.Hem12

/-! The three replies of the power meter HEM12-06M. -/

namespace EdgeNode.Obj.Hem1206m

open BufferAccess Values Hem12 Runs

/-- `FTE_HEM12_FIELD_POWER`, `_VOLTAGE` and `_CURRENT`. -/
inductive Field where
  | power
  | voltage
  | current
deriving DecidableEq

/-- `FTE_TASCON_HEM12_STATUS` with the values of `FTE_TASCON_HEM12_06M_valueTypes`. -/
structure Status where
  pValue : Nat → Values.Value
  xRet : Ret

section Frames

/-- `FTE_TASCON_HEM12_06M_isValidFrame`. -/
def isValidFrame (pFrame ulLen : Nat) : Access Status Bool := do
  if ulLen < 12 then pure false
  else do
    let length ← peek (pFrame + 9)
    if ulLen ≠ length.toNat + 12 then pure false
    else do
      let start ← peek pFrame
      if start ≠ frameStart then pure false
      else do
        let stop ← peek (pFrame + (ulLen - 1))
        if stop ≠ stopCode then pure false
        else do
          let bytes ← peekBytes pFrame (ulLen - 2)
          let sum ← peek (pFrame + (ulLen - 2))
          pure (checksum bytes = sum)

/-- The bytes at `i` and behind, the last of them first. -/
def peekNumber (i k : Nat) : Access Status UInt32 := do
  let bytes ← peekBytes i k
  pure (number 0x66 bytes.reverse)

def setValue (i : Nat) (ulValue : UInt32) (s : Status) : Status :=
  { s with pValue := Function.update s.pValue i (setULONG (s.pValue i) ulValue) }

def failValue (i : Nat) (s : Status) : Status :=
  { pValue := Function.update s.pValue i (setValid (s.pValue i) false), xRet := retError }

/-- The values of a field. -/
def values : Field → List Nat
  | .power => [0, 1]
  | .voltage => [2]
  | .current => [3]

/-- The bytes of digits that a field has behind the first twenty-two of the frame. -/
def digitBytes : Field → Nat
  | .power => 7
  | .voltage => 2
  | .current => 3

/-- `FTE_TASCON_HEM12_06M_FRAME_responsePower`, `_responseVoltage` and `_responseCurrent` behind their
test of the frame: the values in their order. -/
def response (pFrame : Nat) : Field → Access Status (List UInt32)
  | .power => do
    let ulAmountOfPower ← peekNumber (pFrame + 22) 4
    let ulPower ← peekNumber (pFrame + 26) 3
    pure [ulAmountOfPower * 10, ulPower / 10]
  | .voltage => do
    let ulVoltage ← peekNumber (pFrame + 22) 2
    pure [ulVoltage * 100]
  | .current => do
    let ulCurrent ← peekNumber (pFrame + 22) 3
    pure [ulCurrent]

/-- The loop that looks for the start of a frame. -/
def findStart (pRespBuff : Nat) : Nat → Access Status (Nat × Nat)
  | 0 => pure (pRespBuff, 0)
  | ulRespLen + 1 => do
    if (← peek pRespBuff) = frameStart then pure (pRespBuff, ulRespLen + 1)
    else findStart (pRespBuff + 1) ulRespLen

/-- A turn of the loop of `FTE_TASCON_HEM12_06M_request` with `ulRcvdLen` bytes received, and what the
function for the field returns. -/
def turn (nField : Field) (ulRcvdLen : Nat) : Access Status Ret := do
  let (pRespBuff, ulRespLen) ← findStart 0 ulRcvdLen
  let valid ← isValidFrame pRespBuff ulRespLen
  if valid then do
    let words ← response pRespBuff nField
    call fun s => (retOk, ((values nField).zip words).foldl (fun s v => setValue v.1 v.2 s) s)
  else call fun s => (retInvalidChecksum, (values nField).foldl (fun s i => failValue i s) s)

end Frames

section Requests

/-- The bytes received in a turn, with what lies behind the buffer of 64 bytes, and as a ghost the
field whose request the meter answers with them. -/
structure Reception where
  pRcvd : List UInt8
  stack : Nat → UInt8
  answered : Option Field

/-- `pRcvdBuff`, which is cleared before. -/
def Reception.memory (r : Reception) (i : Nat) : UInt8 :=
  if i < 64 then r.pRcvd.getD i 0 else r.stack i

/-- The run of a turn. -/
def Reception.run (nField : Field) (r : Reception) (s : Status) : Run Status Ret :=
  turn nField r.pRcvd.length r.memory s

/-- `FTE_TASCON_HEM12_06M_request`: the states before its turns, and the one behind them. -/
def states (rs : Field → Reception) (s : Status) : Field → Status
  | .power => { s with xRet := retOk }
  | .voltage => (Reception.run .power (rs .power) { s with xRet := retOk }).state
  | .current => (Reception.run .voltage (rs .voltage)
      (Reception.run .power (rs .power) { s with xRet := retOk }).state).state

def request (rs : Field → Reception) (s : Status) : Ret × Status :=
  let s := (Reception.run .current (rs .current) (states rs s .current)).state
  (s.xRet, s)

def step (s : Status) (rs : Field → Reception) : Option Status := some (request rs s).2

end Requests

section Specification

/-- The first byte of a frame start among `n`. -/
structure Starts (mem : Nat → UInt8) (n p : Nat) : Prop where
  le : p ≤ n
  before : ∀ i < p, mem i ≠ frameStart
  here : p < n → mem p = frameStart

/-- A valid frame from `p` to the end: its length at nine, its sum and the stop code last. -/
structure Valid (mem : Nat → UInt8) (n p : Nat) : Prop where
  length : n = p + ((mem (p + 9)).toNat + 12)
  start : mem p = frameStart
  sum : checksum (bytesAt mem p (n - p - 2)) = mem (p + (n - p - 2))
  stop : mem (p + (n - p - 1)) = stopCode

/-- A valid frame with data for the digits of the field, from the configured address and in answer to
the request for the field. -/
structure Answer (pSensorID : Fin 6 → UInt8) (nField : Field) (r : Reception) (p : Nat) : Prop where
  valid : Valid r.memory r.pRcvd.length p
  data : 12 + digitBytes nField ≤ (r.memory (p + 9)).toNat
  address : ∀ i : Fin 6, r.memory (p + (6 - i.val)) = pSensorID i
  request : r.answered = some nField

/-- What a turn is to leave: the field stored out of an answer, or marked as failed, and nothing else
changed. -/
structure Keeps (pSensorID : Fin 6 → UInt8) (nField : Field) (r : Reception) (s : Status) (xRet : Ret)
    (s' : Status) : Prop where
  stored : xRet = retOk → (∃ p, Starts r.memory r.pRcvd.length p ∧ Answer pSensorID nField r p) ∧
    ∀ i ∈ values nField, ∃ ulValue, s'.pValue i = setULONG (s.pValue i) ulValue
  failed : xRet ≠ retOk → ∀ i ∈ values nField, s'.pValue i = setValid (s.pValue i) false
  others : ∀ i, i ∉ values nField → s'.pValue i = s.pValue i

/-- The turn reads received bytes only and leaves what it is to leave. -/
def TurnKeeps (pSensorID : Fin 6 → UInt8) (nField : Field) (r : Reception) (s : Status) : Prop :=
  Safe r.pRcvd.length 0 (turn nField r.pRcvd.length) (Keeps pSensorID nField r s) r.memory s

/-- All turns of a request. -/
def RequestKeeps (pSensorID : Fin 6 → UInt8) (s : Status) (rs : Field → Reception) : Prop :=
  ∀ nField, TurnKeeps pSensorID nField (rs nField) (states rs s nField)

/-- A valid reply is an answer. -/
def Answers (pSensorID : Fin 6 → UInt8) (nField : Field) (r : Reception) : Prop :=
  ∀ p, Starts r.memory r.pRcvd.length p → Valid r.memory r.pRcvd.length p →
    Answer pSensorID nField r p

end Specification

section Turns

variable {mem : Nat → UInt8} {n p i m : Nat} {s : Status}

theorem Starts.unique {q : Nat} (h : Starts mem n p) (h' : Starts mem n q) : p = q := by
  rcases Nat.lt_trichotomy p q with hlt | heq | hgt
  · exact absurd (h.here (Nat.lt_of_lt_of_le hlt h'.le)) (h'.before p hlt)
  · exact heq
  · exact absurd (h'.here (Nat.lt_of_lt_of_le hgt h.le)) (h.before q hgt)

theorem exists_starts (mem : Nat → UInt8) (n : Nat) : ∃ p, Starts mem n p := by
  induction n with
  | zero => exact ⟨0, Nat.le_refl 0, fun i hi => absurd hi (Nat.not_lt_zero i),
      fun h => absurd h (Nat.lt_irrefl 0)⟩
  | succ n ih =>
    obtain ⟨p, hle, hbefore, hhere⟩ := ih
    obtain rfl | hlt := Nat.eq_or_lt_of_le hle
    · by_cases hp : mem p = frameStart
      · exact ⟨p, Nat.le_succ p, hbefore, fun _ => hp⟩
      · refine ⟨p + 1, Nat.le_refl _, fun i hi => ?_, fun h => absurd h (Nat.lt_irrefl _)⟩
        obtain rfl | hi := Nat.eq_or_lt_of_le (Nat.le_of_lt_succ hi)
        · exact hp
        · exact hbefore i hi
    · exact ⟨p, Nat.le_succ_of_le hle, hbefore, fun _ => hhere hlt⟩

theorem safe_findStart {Q : Nat × Nat → Status → Prop} (h : Starts mem n p) (hi : i ≤ p)
    (hm : i + m = n) : Safe n 0 (findStart i m) Q mem s ↔ Q (p, n - p) s := by
  induction m generalizing i with
  | zero =>
    have hle := h.le
    obtain rfl : i = p := by omega
    have hzero : n - i = 0 := by omega
    rw [findStart, safe_pure, hzero]
  | succ m ih =>
    have hin : i < n := by omega
    have hleft : m + 1 = n - i := by omega
    rw [findStart, safe_bind, safe_peek, and_iff_right hin, safe_ite, safe_pure]
    obtain rfl | hlt := Nat.eq_or_lt_of_le hi
    · have hhere := h.here hin
      rw [hleft]
      simp only [hhere, true_implies, not_true_eq_false, false_implies, and_true]
    · have hne := h.before i hlt
      have ih := @ih (i + 1) hlt (by omega)
      simp only [hne, false_implies, not_false_eq_true, true_implies, true_and, ih]

theorem safe_isValidFrame {Q : Bool → Status → Prop} (hp : p ≤ n) :
    Safe n 0 (isValidFrame p (n - p)) Q mem s ↔
      (Valid mem n p → Q true s) ∧ (¬ Valid mem n p → Q false s) := by
  simp only [isValidFrame, safe_bind, safe_ite, safe_pure, safe_peek, safe_peekBytes, ne_eq]
  by_cases hshort : n - p < 12
  · have hno : ¬ Valid mem n p := fun h => by
      have := h.length
      omega
    simp only [hshort, hno, true_implies, false_implies, not_true_eq_false, not_false_eq_true,
      true_and, and_true]
  · have h0 : p < n := by omega
    have h9 : p + 9 < n := by omega
    have h1 : p + (n - p - 1) < n := by omega
    have h2 : p + (n - p - 2) < n := by omega
    have h2' : p + (n - p - 2) ≤ n := by omega
    simp only [hshort, h0, h9, h1, h2, h2', or_true, true_and, false_implies, true_implies,
      not_false_eq_true]
    by_cases hlen : n - p = (mem (p + 9)).toNat + 12
    · by_cases hstart : mem p = frameStart
      · by_cases hstop : mem (p + (n - p - 1)) = stopCode
        · by_cases hsum : checksum (bytesAt mem p (n - p - 2)) = mem (p + (n - p - 2))
          · have hyes : Valid mem n p := ⟨by omega, hstart, hsum, hstop⟩
            simp [← hlen, hstart, hstop, hsum, hyes]
          · have hno : ¬ Valid mem n p := fun h => hsum h.sum
            simp [← hlen, hstart, hstop, hsum, hno]
        · have hno : ¬ Valid mem n p := fun h => hstop h.stop
          simp [← hlen, hstart, hstop, hno]
      · have hno : ¬ Valid mem n p := fun h => hstart h.start
        simp [← hlen, hstart, hno]
    · have hno : ¬ Valid mem n p := fun h => hlen (by have := h.length; omega)
      simp [hlen, hno]

theorem safe_peekNumber {Q : UInt32 → Status → Prop} (i k : Nat) :
    Safe n 0 (peekNumber i k) Q mem s ↔
      (k = 0 ∨ i + k ≤ n) ∧ Q (number 0x66 (bytesAt mem i k).reverse) s := by
  rw [peekNumber, safe_bind, safe_peekBytes, safe_pure]

/-- The values that a frame at `p` gives for a field. -/
def words (mem : Nat → UInt8) (p : Nat) : Field → List UInt32
  | .power => [number 0x66 (bytesAt mem (p + 22) 4).reverse * 10,
      number 0x66 (bytesAt mem (p + 26) 3).reverse / 10]
  | .voltage => [number 0x66 (bytesAt mem (p + 22) 2).reverse * 100]
  | .current => [number 0x66 (bytesAt mem (p + 22) 3).reverse]

theorem safe_response {Q : List UInt32 → Status → Prop} (nField : Field) :
    Safe n 0 (response p nField) Q mem s ↔
      p + (22 + digitBytes nField) ≤ n ∧ Q (words mem p nField) s := by
  cases nField with
  | power =>
    simp only [response, safe_bind, safe_pure, safe_peekNumber, digitBytes, words]
    constructor
    · rintro ⟨h4, h3, hq⟩
      exact ⟨by omega, hq⟩
    · rintro ⟨h7, hq⟩
      exact ⟨by omega, by omega, hq⟩
  | voltage =>
    simp only [response, safe_bind, safe_pure, safe_peekNumber, digitBytes, words, Nat.add_assoc,
      OfNat.ofNat_ne_zero, false_or]
  | current =>
    simp only [response, safe_bind, safe_pure, safe_peekNumber, digitBytes, words, Nat.add_assoc,
      OfNat.ofNat_ne_zero, false_or]

/-- What a turn leaves of a valid frame at `p`. -/
def storeField (mem : Nat → UInt8) (p : Nat) (nField : Field) (s : Status) : Status :=
  ((values nField).zip (words mem p nField)).foldl (fun s v => setValue v.1 v.2 s) s

def failField (nField : Field) (s : Status) : Status :=
  (values nField).foldl (fun s i => failValue i s) s

theorem safe_turn {Q : Ret → Status → Prop} (nField : Field) (h : Starts mem n p) :
    Safe n 0 (turn nField n) Q mem s ↔
      (Valid mem n p → p + (22 + digitBytes nField) ≤ n ∧ Q retOk (storeField mem p nField s)) ∧
        (¬ Valid mem n p → Q retInvalidChecksum (failField nField s)) := by
  rw [turn, safe_bind, safe_findStart h (Nat.zero_le p) (Nat.zero_add n), safe_bind,
    safe_isValidFrame h.le]
  simp only [safe_ite, safe_bind, safe_response, safe_call, true_implies, not_true_eq_false,
    false_implies, and_true, Bool.false_eq_true, not_false_eq_true, true_and, storeField, failField]

theorem values_nodup (nField : Field) : (values nField).Nodup := by
  cases nField <;> decide

theorem storeField_eq (mem : Nat → UInt8) (p : Nat) (nField : Field) (s : Status) :
    ∃ word : Nat → UInt32,
      storeField mem p nField s = (values nField).foldl (fun s i => setValue i (word i) s) s := by
  cases nField with
  | power =>
    refine ⟨fun i => if i = 0 then number 0x66 (bytesAt mem (p + 22) 4).reverse * 10
      else number 0x66 (bytesAt mem (p + 26) 3).reverse / 10, ?_⟩
    rfl
  | voltage => exact ⟨fun _ => number 0x66 (bytesAt mem (p + 22) 2).reverse * 100, rfl⟩
  | current => exact ⟨fun _ => number 0x66 (bytesAt mem (p + 22) 3).reverse, rfl⟩

theorem storeField_spec (mem : Nat → UInt8) (p : Nat) (nField : Field) (s : Status) :
    (∀ i ∈ values nField, ∃ ulValue,
      (storeField mem p nField s).pValue i = setULONG (s.pValue i) ulValue) ∧
    ∀ i, i ∉ values nField → (storeField mem p nField s).pValue i = s.pValue i := by
  obtain ⟨word, hword⟩ := storeField_eq mem p nField s
  have hother : ∀ (s : Status) (i j : Nat), i ≠ j → (setValue i (word i) s).pValue j = s.pValue j :=
    fun s i j hij => Function.update_of_ne hij.symm _ _
  rw [hword]
  constructor
  · intro i hi
    exact ⟨word i, @Sweep.view_of_mem Status Nat Values.Value (fun s i => setValue i (word i) s)
      Status.pValue (fun i v => setULONG v (word i)) (fun s i => Function.update_self _ _ _) hother _
      (values_nodup nField) i hi s⟩
  · exact fun i hi => @Sweep.view_of_not_mem Status Nat Values.Value _ Status.pValue hother _ i hi s

theorem failField_spec (nField : Field) (s : Status) :
    (∀ i ∈ values nField, (failField nField s).pValue i = setValid (s.pValue i) false) ∧
    ∀ i, i ∉ values nField → (failField nField s).pValue i = s.pValue i := by
  have hother : ∀ (s : Status) (i j : Nat), i ≠ j → (failValue i s).pValue j = s.pValue j :=
    fun s i j hij => Function.update_of_ne hij.symm _ _
  constructor
  · intro i hi
    exact @Sweep.view_of_mem Status Nat Values.Value (fun s i => failValue i s) Status.pValue
      (fun _ v => setValid v false) (fun s i => Function.update_self _ _ _) hother _
      (values_nodup nField) i hi s
  · exact fun i hi => @Sweep.view_of_not_mem Status Nat Values.Value _ Status.pValue hother _ i hi s

end Turns

section Results

variable {pSensorID : Fin 6 → UInt8} {nField : Field} {r : Reception} {s : Status}

theorem turnKeeps_iff : TurnKeeps pSensorID nField r s ↔ Answers pSensorID nField r := by
  obtain ⟨p, hp⟩ := exists_starts r.memory r.pRcvd.length
  have hone : Answers pSensorID nField r ↔
      (Valid r.memory r.pRcvd.length p → Answer pSensorID nField r p) :=
    ⟨fun h => h p hp, fun h q hq hv => by
      obtain rfl := hp.unique hq
      exact h hv⟩
  rw [TurnKeeps, safe_turn nField hp, hone]
  have hinvalid : retInvalidChecksum ≠ retOk := by decide
  by_cases hv : Valid r.memory r.pRcvd.length p
  · simp only [hv, true_implies, not_true_eq_false, false_implies, and_true]
    obtain ⟨hstored, hothers⟩ := storeField_spec r.memory p nField s
    constructor
    · rintro ⟨-, hkeeps⟩
      obtain ⟨⟨q, hq, hanswer⟩, -⟩ := hkeeps.stored rfl
      obtain rfl := hp.unique hq
      exact hanswer
    · intro hanswer
      refine ⟨?_, fun _ => ⟨⟨p, hp, hanswer⟩, hstored⟩, fun hne => absurd rfl hne, hothers⟩
      have hlen := hv.length
      have hdata := hanswer.data
      omega
  · simp only [hv, false_implies, true_and, not_false_eq_true, true_implies, iff_true]
    obtain ⟨hfailed, hothers⟩ := failField_spec nField s
    exact ⟨fun heq => absurd heq hinvalid, fun _ => hfailed, hothers⟩

/-- In a run of requests every turn of every request leaves what it is to leave exactly when every
valid reply is an answer to it: neither its length nor where it comes from is looked at. -/
theorem requests_keep_iff (pSensorID : Fin 6 → UInt8) (s : Status)
    (requests : List (Field → Reception)) :
    (∀ t rs, Takes step s requests t rs → RequestKeeps pSensorID t rs) ↔
      ∀ t rs, Takes step s requests t rs → ∀ nField, Answers pSensorID nField (rs nField) := by
  have hstep (t : Status) (rs : Field → Reception) :
      RequestKeeps pSensorID t rs ↔ ∀ nField, Answers pSensorID nField (rs nField) :=
    forall_congr' fun _ => turnKeeps_iff
  simp only [hstep]

def status0 : Status := ⟨fun _ => ⟨.pwrKw, true, 0, 0⟩, retOk⟩

/-- The shortest valid frame, without data, as the reply to every request. -/
def emptyReply : Reception :=
  ⟨[0x69, 1, 1, 1, 1, 1, 1, 0x69, 0xF8, 0, 0xD0, 0x96], fun _ => 0, some .power⟩

theorem emptyReply_stored :
    ¬ ∀ (pSensorID : Fin 6 → UInt8) (s : Status) (requests : List (Field → Reception)) t rs,
      Takes step s requests t rs → RequestKeeps pSensorID t rs := by
  intro h
  have hkeeps := h (fun _ => 1) status0 [fun _ => emptyReply] status0 (fun _ => emptyReply)
    ⟨[], List.prefix_rfl, rfl⟩ .power
  have hbehind := hkeeps.1 22 (by decide +kernel)
  exact absurd hbehind (by decide)

end Results

end EdgeNode.Obj.Hem1206m
