import EdgeNode.Lib.BufferAccess
import EdgeNode.Obj.Statistics
import EdgeNode.Sys.Ticks
import EdgeNode.Values.Text
import Mathlib.Order.SuccPred.Archimedean
import Mathlib.Data.Nat.SuccPred

/-! The update functions of the air quality sensors AQM100 and AQM100M. -/

namespace EdgeNode.Obj.Elt

open BufferAccess Values Sys

/-- `FTE_ELT_AQM100_FIELD`. -/
inductive Field where
  | co2
  | temp
  | humi
  | voc
  deriving DecidableEq

/-- `FTE_ELT_STATUS`. -/
structure Status where
  pValue : Field → Values.Value
  xStatistics : Statistics
  ulRetryCount : UInt32
  xRet : Ret
  xLastRequestTime : TimeStruct
  xLastUpdateTime : TimeStruct

/-- The clock before the request and after the answer. -/
structure Readings where
  request : TimeStruct
  update : TimeStruct

/-- `FTE_VALUE_setPPM`, `FTE_VALUE_setTemperature`, `FTE_VALUE_setHumidity` and `FTE_VALUE_setDIO`
on the word of the union. -/
def setWord (v : Values.Value) (ulValue : UInt32) : Values.Value := (accept v ulValue).2

/-- A success in the update functions and in the task. -/
def Status.succeed (s : Status) : Status :=
  { s with xStatistics := s.xStatistics.incSucceed, ulRetryCount := 0 }

/-- A failure in `FTE_ELT_AQM100M_update` and in the task. -/
def Status.fail (allowedFailureCount ulRetryCount : UInt32) (s : Status) : Status :=
  if s.ulRetryCount ≥ ulRetryCount then
    { s with xStatistics := (s.xStatistics.incFailed allowedFailureCount).1, ulRetryCount := 0 }
  else { s with ulRetryCount := s.ulRetryCount + 1 }

section Aqm100

/-- The loop from the position before `k` down to the first; the second byte of a pair is looked at
after a right first one. -/
def scan : Nat → Access Status (Option Nat)
  | 0 => pure none
  | i + 1 => do
    let start ← peek i
    if start = 0xFA then do
      let stop ← peek (i + 11)
      if stop = 0x05 then pure (some i) else scan i
    else scan i

def checksum (pFrame : List UInt8) : UInt8 := (pFrame.take 10).foldl (· + ·) 0

/-- A measurement counts with its bit in the flags. -/
def measure (nFlag bit : UInt8) (ulValue : UInt32) (v : Values.Value) : Values.Value :=
  if nFlag &&& bit ≠ 0 then setWord v ulValue else setValid v false

def ulVoc (b : UInt8) : UInt32 :=
  if b = 0x00 then 0 else if b = 0x10 then 1 else if b = 0x40 then 2 else 3

/-- The four values after the measurements of a frame. -/
def measured (pFrame : List UInt8) (pValue : Field → Values.Value) : Field → Values.Value
  | .co2 => measure (pFrame.getD 3 0) 0x08
      (((pFrame.getD 4 0).toUInt32 <<< 8) ||| (pFrame.getD 5 0).toUInt32) (pValue .co2)
  | .temp => measure (pFrame.getD 3 0) 0x04
      ((((pFrame.getD 6 0).toUInt32 <<< 8) ||| (pFrame.getD 7 0).toUInt32) * 10) (pValue .temp)
  | .humi => measure (pFrame.getD 3 0) 0x02 ((pFrame.getD 8 0).toUInt32 * 100) (pValue .humi)
  | .voc => measure (pFrame.getD 3 0) 0x01 (ulVoc (pFrame.getD 9 0)) (pValue .voc)

/-- `FTE_ELT_AQM100_update`, with `nRcvdLen` bytes received at the input pointer. -/
def aqm100Update (nRcvdLen : Nat) (t : Readings) : Access Status Ret := do
  call fun s => ((), { s with xLastRequestTime := t.request })
  let nFrameStart ← scan (nRcvdLen - 10)
  match nFrameStart with
  | none => call fun s => (retError, { s with xRet := retError })
  | some i => do
    let pFrame ← peekBytes i 10
    let crc ← peek (i + 10)
    if checksum pFrame ≠ crc then call fun s => (retError, { s with xRet := retError })
    else call fun s => (retOk, Status.succeed
      { s with pValue := measured pFrame s.pValue, xLastUpdateTime := t.update })

end Aqm100

/-- `FTE_ELT_AQM100M_update`, with what `FTE_UCS_MODBUS_getRegs` returns. -/
def aqm100mUpdate (allowedFailureCount ulRetryCount : UInt32) (xRet : Ret) (pRegs : Field → Int16)
    (t : Readings) (s : Status) : Ret × Status :=
  let s := { s with xLastRequestTime := t.request }
  if xRet ≠ retOk then (xRet, s.fail allowedFailureCount ulRetryCount)
  else
    let pValue : Field → Values.Value
      | .co2 => setWord (s.pValue .co2) (pRegs .co2).toInt32.toUInt32
      | .temp => setWord (s.pValue .temp) ((pRegs .temp).toInt32 * 10).toUInt32
      | .humi => setWord (s.pValue .humi) ((pRegs .humi).toInt32 * 100).toUInt32
      | .voc => setWord (s.pValue .voc) (if pRegs .voc = 0 then 1 else 0)
    (retOk, Status.succeed { s with pValue, xLastUpdateTime := t.update })

section Frames

/-- The markers of a frame that starts at `i`. -/
def Marks (mem : Nat → UInt8) (i : Nat) : Prop := mem i = 0xFA ∧ mem (i + 11) = 0x05

instance (mem : Nat → UInt8) : DecidablePred (Marks mem) :=
  fun _ => inferInstanceAs (Decidable (_ ∧ _))

def Sums (mem : Nat → UInt8) (i : Nat) : Prop := checksum (bytesAt mem i 10) = mem (i + 10)

/-- The markers of twelve of the `n` received bytes. -/
def MarkedAt (mem : Nat → UInt8) (n i : Nat) : Prop := i + 12 ≤ n ∧ Marks mem i

/-- A complete frame among the `n` received bytes. -/
def FrameAt (mem : Nat → UInt8) (n i : Nat) : Prop := MarkedAt mem n i ∧ Sums mem i

/-- What an update is to leave of the received bytes and the values before. -/
structure Stores (mem : Nat → UInt8) (n : Nat) (s : Status) (xRet : Ret) (s' : Status) : Prop where
  last : ∀ i, IsGreatest {j | FrameAt mem n j} i →
    xRet = retOk ∧ s'.pValue = measured (bytesAt mem i 10) s.pValue
  none : (∀ i, ¬ FrameAt mem n i) → xRet ≠ retOk ∧ s'.pValue = s.pValue

/-- The update reads received bytes only and stores the last frame. -/
def Extracts (mem : Nat → UInt8) (n : Nat) (t : Readings) (s : Status) : Prop :=
  Safe n 0 (aqm100Update n t) (Stores mem n s) mem s

/-- The last position below `k` with the markers of a frame. -/
def lastMarks (mem : Nat → UInt8) : Nat → Option Nat
  | 0 => none
  | i + 1 => if Marks mem i then some i else lastMarks mem i

variable {mem : Nat → UInt8} {n k i : Nat} {t : Readings} {s : Status}

theorem lastMarks_eq_none : lastMarks mem k = none ↔ ∀ i < k, ¬ Marks mem i := by
  induction k with
  | zero => simp [lastMarks]
  | succ k ih =>
    rw [lastMarks]
    by_cases hk : Marks mem k
    · rw [if_pos hk]
      exact iff_of_false (Option.some_ne_none k) fun h => h k (Nat.lt_succ_self k) hk
    · rw [if_neg hk, ih]
      constructor
      · intro h i hi
        obtain rfl | hlt := Nat.eq_or_lt_of_le (Nat.le_of_lt_succ hi)
        · exact hk
        · exact h i hlt
      · exact fun h i hi => h i (Nat.lt_succ_of_lt hi)

theorem lastMarks_eq_some :
    lastMarks mem k = some i ↔ IsGreatest {j | j < k ∧ Marks mem j} i := by
  induction k with
  | zero => simp [lastMarks, IsGreatest]
  | succ k ih =>
    rw [lastMarks]
    by_cases hk : Marks mem k
    · rw [if_pos hk, Option.some.injEq]
      constructor
      · rintro rfl
        exact ⟨⟨Nat.lt_succ_self k, hk⟩, fun _ hj => Nat.le_of_lt_succ hj.1⟩
      · rintro ⟨⟨hi, -⟩, hlast⟩
        exact Nat.le_antisymm (hlast ⟨Nat.lt_succ_self k, hk⟩) (Nat.le_of_lt_succ hi)
    · have hbelow : ∀ j, j < k + 1 ∧ Marks mem j ↔ j < k ∧ Marks mem j := by
        intro j
        constructor
        · rintro ⟨hj, hm⟩
          obtain rfl | hlt := Nat.eq_or_lt_of_le (Nat.le_of_lt_succ hj)
          · exact absurd hm hk
          · exact ⟨hlt, hm⟩
        · exact fun h => ⟨Nat.lt_succ_of_lt h.1, h.2⟩
      rw [if_neg hk, ih]
      simp only [hbelow]

/-- Where the stop byte of the first pair looked at was received, those of all pairs were. -/
theorem safe_scan {Q : Option Nat → Status → Prop} (hk : k + 11 ≤ n) :
    Safe n 0 (scan k) Q mem s ↔ Q (lastMarks mem k) s := by
  induction k with
  | zero => simp [scan, lastMarks]
  | succ k ih =>
    have ih := ih (by omega)
    rw [scan, lastMarks]
    simp only [safe_bind, safe_peek, safe_ite, safe_pure, ih, Marks]
    have hk : k < n := by omega
    have hstop : k + 11 < n := by omega
    by_cases hstart : mem k = 0xFA
    · by_cases hend : mem (k + 11) = 0x05
      · simp [hk, hstop, hstart, hend]
      · simp [hk, hstop, hstart, hend]
    · simp [hk, hstart]

/-- The scan begins a byte too far: the stop byte of its first pair is the one behind the received
ones. -/
theorem safe_scan_received {Q : Option Nat → Status → Prop} :
    Safe n 0 (scan (n - 10)) Q mem s ↔
      (11 ≤ n → mem (n - 11) ≠ 0xFA) ∧ Q (lastMarks mem (n - 11)) s := by
  by_cases hn : 11 ≤ n
  · have hsucc : n - 10 = n - 11 + 1 := by omega
    have hread : n - 11 < n := by omega
    have hbehind : ¬ n - 11 + 11 < n := by omega
    have hbelow : n - 11 + 11 ≤ n := by omega
    rw [hsucc, scan]
    simp only [safe_bind, safe_peek, safe_ite, safe_pure, safe_scan hbelow, hread, hbehind, hn,
      true_and, false_and, true_implies, imp_false]
    exact and_congr_right fun hne => ⟨fun h => h hne, fun h _ => h⟩
  · have hzero : n - 10 = 0 := by omega
    have hzero' : n - 11 = 0 := by omega
    rw [hzero, hzero', scan, safe_pure, lastMarks]
    exact (and_iff_right fun h => absurd h hn).symm

theorem exists_last_frame {j : Nat} (h : FrameAt mem n j) :
    ∃ i, IsGreatest {j | FrameAt mem n j} i := by
  have hbound : BddAbove {j | FrameAt mem n j} := by
    refine ⟨n, fun i hi => ?_⟩
    have hle := hi.1.1
    omega
  exact hbound.exists_isGreatest_of_nonempty ⟨j, h⟩

theorem isGreatest_marked : lastMarks mem (n - 11) = some i ↔
    IsGreatest {j | MarkedAt mem n j} i := by
  have hset : {j | j < n - 11 ∧ Marks mem j} = {j | MarkedAt mem n j} := by
    ext j
    have hle : j < n - 11 ↔ j + 12 ≤ n := by omega
    exact and_congr_left' hle
  rw [lastMarks_eq_some, hset]

/-- The byte behind the received ones is looked at after a start marker eleven bytes from their end, and
a wrong checksum of the last pair of markers hides every earlier frame. -/
theorem extracts_iff : Extracts mem n t s ↔
    (11 ≤ n → mem (n - 11) ≠ 0xFA) ∧
      ∀ i, IsGreatest {j | MarkedAt mem n j} i → ¬ Sums mem i → ∀ j, ¬ FrameAt mem n j := by
  rw [Extracts, aqm100Update, safe_bind, safe_call, safe_bind, safe_scan_received]
  refine and_congr_right fun hstart => ?_
  cases hl : lastMarks mem (n - 11) with
  | none =>
    have hnone : ∀ j, ¬ MarkedAt mem n j := by
      intro j hj
      have hle := hj.1
      exact lastMarks_eq_none.mp hl j (by omega) hj.2
    rw [safe_call]
    apply iff_of_true
    · exact ⟨fun j hj => absurd hj.1.1 (hnone j), fun _ => ⟨retError_ne, rfl⟩⟩
    · exact fun j hj => absurd hj.1 (hnone j)
  | some i =>
    have hi := isGreatest_marked.mp hl
    have hle : i + 12 ≤ n := hi.1.1
    have hframe : i + 10 ≤ n := by omega
    have hcrc : i + 10 < n := by omega
    simp only [safe_bind, safe_peekBytes, safe_peek, safe_ite, safe_call, hframe, hcrc, or_true,
      true_and]
    by_cases hsum : Sums mem i
    · have hlast : IsGreatest {j | FrameAt mem n j} i := ⟨⟨hi.1, hsum⟩, fun j hj => hi.2 hj.1⟩
      apply iff_of_true
      · refine ⟨fun hne => absurd hsum hne, fun _ => ⟨fun j hj => ?_, fun h => ?_⟩⟩
        · rw [hj.unique hlast]
          exact ⟨rfl, rfl⟩
        · exact absurd hlast.1 (h i)
      · intro j hj hne
        rw [hj.unique hi] at hne
        exact absurd hsum hne
    · have hnever : (∀ j, IsGreatest {j | MarkedAt mem n j} j → ¬ Sums mem j →
          ∀ l, ¬ FrameAt mem n l) ↔ ∀ l, ¬ FrameAt mem n l :=
        ⟨fun h => h i hi hsum, fun h _ _ _ => h⟩
      rw [hnever]
      constructor
      · rintro ⟨hstores, -⟩ j hj
        obtain ⟨l, hl⟩ := exists_last_frame hj
        exact retError_ne ((hstores hsum).last l hl).1
      · intro h
        exact ⟨fun _ => ⟨fun j hj => absurd hj.1 (h j), fun _ => ⟨retError_ne, rfl⟩⟩,
          fun hne => absurd hne (not_not_intro hsum)⟩

instance (mem : Nat → UInt8) (n i : Nat) : Decidable (FrameAt mem n i) :=
  inferInstanceAs (Decidable ((i + 12 ≤ n ∧ Marks mem i) ∧ checksum (bytesAt mem i 10) = mem (i + 10)))

def status0 : Status where
  pValue := fun _ => ⟨.ulong, false, 0, 0⟩
  xStatistics := Statistics.zero
  ulRetryCount := 0
  xRet := retOk
  xLastRequestTime := ⟨0, 0⟩
  xLastUpdateTime := ⟨0, 0⟩

/-- A complete frame, and markers with a wrong checksum between them. -/
def frameThenNoise : Nat → UInt8 := fun i =>
  [0xFA, 0, 0, 0x0F, 1, 0x90, 0, 25, 50, 0, 0xE5, 0x05,
    0xFA, 0, 0, 0, 0, 0, 0, 0, 0, 0, 0, 0x05].getD i 0

theorem frame_hidden : ¬ Extracts frameThenNoise 24 ⟨⟨1, 0⟩, ⟨2, 0⟩⟩ status0 := by
  intro h
  have hlast : IsGreatest {j | FrameAt frameThenNoise 24 j} 0 := by
    refine ⟨by decide +kernel, fun j hj => ?_⟩
    have hnone : ∀ j < 13, FrameAt frameThenNoise 24 j → j ≤ 0 := by decide +kernel
    have hle := hj.1.1
    exact hnone j (by omega) hj
  have hret := (h.2.2.last 0 hlast).1
  revert hret
  decide +kernel

end Frames

end EdgeNode.Obj.Elt
