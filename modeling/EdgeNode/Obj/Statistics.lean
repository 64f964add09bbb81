import EdgeNode.Lib.ShiftRegister
import EdgeNode.Types
import Mathlib.Data.List.Induction

/-! The statistics of an object: `FT_OBJ_STAT_incSucceed` and `FT_OBJ_STAT_incFailed`. -/

namespace EdgeNode.Obj

open ShiftRegisters

/-- `FTE_OBJ_CHECK_FAILURE_COUNT_MAX`. -/
def checkFailureCountMax : Nat := 64

/-- The words of `pStatBits`: the constant over the bytes of a word. -/
def nPartialCount : Nat := checkFailureCountMax / 4

structure Statistics where
  nTotalTrial : UInt32
  nTotalFail : UInt32
  nPartialFail : UInt32
  pStatBits : List UInt32

namespace Statistics

def zero : Statistics := ⟨0, 0, 0, List.replicate nPartialCount 0⟩

/-- The loop over the words, from `i` down to the second. -/
def shiftWords (pStatBits : List UInt32) : Nat → List UInt32
  | 0 => pStatBits
  | i + 1 => shiftWords (pStatBits.set (i + 1)
      ((pStatBits.getD (i + 1) 0 <<< 1) ||| (pStatBits.getD i 0 >>> 31))) i

/-- The count without the trial that leaves the register. -/
def expired (s : Statistics) : UInt32 :=
  if s.pStatBits.getD (nPartialCount - 1) 0 &&& 0x80000000 ≠ 0 then
    if s.nPartialFail > 0 then s.nPartialFail - 1 else s.nPartialFail
  else s.nPartialFail

/-- `FT_OBJ_STAT_incSucceed`. -/
def incSucceed (s : Statistics) : Statistics :=
  let pStatBits := shiftWords s.pStatBits (nPartialCount - 1)
  { s with
    nTotalTrial := s.nTotalTrial + 1
    nPartialFail := s.expired
    pStatBits := pStatBits.set 0 (pStatBits.getD 0 0 <<< 1) }

/-- `FT_OBJ_STAT_incFailed`, and whether it declares the system unstable. -/
def incFailed (allowedFailureCount : UInt32) (s : Statistics) : Statistics × Bool :=
  let pStatBits := shiftWords s.pStatBits (nPartialCount - 1)
  let nPartialFail := s.expired + 1
  ({ nTotalTrial := s.nTotalTrial + 1
     nTotalFail := s.nTotalFail + 1
     nPartialFail
     pStatBits := pStatBits.set 0 ((pStatBits.getD 0 0 <<< 1) ||| 1) },
    nPartialFail ≥ allowedFailureCount)

/-- A trial that failed or not. -/
def trial (allowedFailureCount : UInt32) (s : Statistics) (failed : Bool) : Statistics :=
  if failed then (s.incFailed allowedFailureCount).1 else s.incSucceed

def run (allowedFailureCount : UInt32) (trials : List Bool) : Statistics :=
  trials.foldl (trial allowedFailureCount) zero

/-- The words as a register. -/
def register (s : Statistics) : List (BitVec 32) := s.pStatBits.map UInt32.toBitVec

/-- The numbers of the trials so far; the failures are those of as many trials as the register has
bits. -/
structure Counts (s : Statistics) (trials : List Bool) : Prop where
  length : s.pStatBits.length = nPartialCount
  register : Holds s.register trials
  partialFail : s.nPartialFail.toNat = recent (nPartialCount * 32) trials
  totalTrial : s.nTotalTrial.toNat = trials.length % 2 ^ 32
  totalFail : s.nTotalFail.toNat = trials.count true % 2 ^ 32

/-- What the counters are to be. -/
structure Right (s : Statistics) (trials : List Bool) : Prop where
  partialFail : s.nPartialFail.toNat = recent checkFailureCountMax trials
  totalTrial : s.nTotalTrial.toNat = trials.length
  totalFail : s.nTotalFail.toNat = trials.count true

end Statistics

section Words

theorem word_shiftConcat (x y : UInt32) :
    ((x <<< 1) ||| (y >>> 31)).toBitVec = x.toBitVec.shiftConcat y.toBitVec.msb := by
  have hone : UInt32.toBitVec 1 % 32 = 1#32 := rfl
  have hlast : UInt32.toBitVec 31 % 32 = 31#32 := rfl
  apply BitVec.eq_of_getLsbD_eq
  intro i hi
  rw [BitVec.getLsbD_shiftConcat, BitVec.msb_eq_getLsbD_last, UInt32.toBitVec_or,
    UInt32.toBitVec_shiftLeft, UInt32.toBitVec_shiftRight, hone, hlast, BitVec.getLsbD_or]
  cases i with
  | zero => simp
  | succ i =>
    have hout : y.toBitVec.getLsbD (31 + (i + 1)) = false := BitVec.getLsbD_of_ge _ _ (by omega)
    have hget : x.toBitVec.getLsbD i = x.toBitVec[i] := BitVec.getLsbD_eq_getElem (by omega)
    simp [hi, hout, hget]

theorem word_shift_trial (x : UInt32) (failed : Bool) :
    (if failed then (x <<< 1) ||| 1 else x <<< 1).toBitVec = x.toBitVec.shiftConcat failed := by
  cases failed
  · have h := word_shiftConcat x 0
    rwa [show (0 : UInt32) >>> 31 = 0 from rfl, UInt32.or_zero] at h
  · exact word_shiftConcat x 0x80000000

theorem high_ne_zero (x : UInt32) : x &&& 0x80000000 ≠ 0 ↔ x.toBitVec.msb = true := by
  have htop : UInt32.toBitVec 0x80000000 = BitVec.twoPow 32 31 := rfl
  rw [Ne, ← UInt32.toBitVec_inj, UInt32.toBitVec_and, htop, BitVec.and_twoPow,
    BitVec.msb_eq_getLsbD_last]
  split
  next h => exact iff_of_true (by decide) h
  next h => exact iff_of_false (fun hne => hne rfl) h

open Statistics in
/-- The loop goes downwards, so that every word is read before it is written. -/
theorem getElem?_shiftWords (pStatBits : List UInt32) (i j : Nat) (hi : i < pStatBits.length) :
    (shiftWords pStatBits i)[j]? =
      if 0 < j ∧ j ≤ i then
        some ((pStatBits.getD j 0 <<< 1) ||| (pStatBits.getD (j - 1) 0 >>> 31))
      else pStatBits[j]? := by
  induction i generalizing pStatBits with
  | zero => rw [shiftWords, if_neg (by omega)]
  | succ i ih =>
    have hbelow : ∀ k < i + 1, ∀ x, (pStatBits.set (i + 1) x).getD k 0 = pStatBits.getD k 0 := by
      intro k hk x
      rw [List.getD_eq_getElem?_getD, List.getD_eq_getElem?_getD, List.getElem?_set_ne (by omega)]
    rw [shiftWords, ih _ (by rw [List.length_set]; omega)]
    rcases Nat.lt_trichotomy j (i + 1) with hlt | rfl | hgt
    · rw [hbelow j hlt, hbelow (j - 1) (by omega), List.getElem?_set_ne (by omega)]
      split
      next h => rw [if_pos ⟨h.1, by omega⟩]
      next h => rw [if_neg (by omega)]
    · rw [if_neg (by omega), if_pos (by omega), List.getElem?_set_self hi, Nat.add_sub_cancel]
    · rw [if_neg (by omega), if_neg (by omega), List.getElem?_set_ne (by omega)]

open Statistics in
theorem words_shift (pStatBits : List UInt32) (n : Nat) (hn : pStatBits.length = n + 1)
    (failed : Bool) :
    ((shiftWords pStatBits n).set 0
      (if failed then ((shiftWords pStatBits n).getD 0 0 <<< 1) ||| 1
        else (shiftWords pStatBits n).getD 0 0 <<< 1)).map UInt32.toBitVec =
      shift failed (pStatBits.map UInt32.toBitVec) := by
  have hwords := getElem?_shiftWords pStatBits n
  have hfirst : (shiftWords pStatBits n).getD 0 0 = pStatBits.getD 0 0 := by
    rw [List.getD_eq_getElem?_getD, hwords 0 (by omega), if_neg (by omega),
      List.getD_eq_getElem?_getD]
  apply List.ext_getElem?
  intro j
  rw [hfirst, getElem?_shift, List.getElem?_map, List.getElem?_map]
  cases j with
  | zero =>
    have hget : pStatBits[0]? = some (pStatBits.getD 0 0) := by
      rw [List.getD_eq_getElem?_getD, List.getElem?_eq_getElem (by omega)]
      rfl
    have hset := hwords 0 (by omega)
    rw [if_neg (by omega)] at hset
    rw [List.getElem?_set_self', hset, hget]
    exact congrArg some (word_shift_trial _ _)
  | succ j =>
    rw [List.getElem?_set_ne (by omega), hwords (j + 1) (by omega), Nat.add_sub_cancel]
    split
    next h =>
      have hget : pStatBits[j + 1]? = some (pStatBits.getD (j + 1) 0) := by
        rw [List.getD_eq_getElem?_getD, List.getElem?_eq_getElem (by omega)]
        rfl
      rw [hget, if_neg (by omega)]
      have hbefore : (pStatBits.map UInt32.toBitVec).getD j 0#32 =
          (pStatBits.getD j 0).toBitVec := by
        rw [List.getD_eq_getElem?_getD, List.getElem?_map, List.getD_eq_getElem?_getD]
        cases pStatBits[j]? <;> rfl
      rw [Option.map_some, Option.map_some, Option.map_some, word_shiftConcat, hbefore]
    next h =>
      rw [List.getElem?_eq_none (by omega)]
      rfl

end Words

namespace Statistics

variable {allowedFailureCount : UInt32} {s : Statistics} {trials : List Bool}

theorem register_trial (allowedFailureCount : UInt32) (h : s.pStatBits.length = nPartialCount)
    (failed : Bool) :
    (trial allowedFailureCount s failed).register = shift failed s.register := by
  have hwords := words_shift s.pStatBits (nPartialCount - 1) (h.trans (by decide)) failed
  rw [register, register, ← hwords, trial]
  cases failed
  · simp only [Bool.false_eq_true, if_false, incSucceed]
  · simp only [if_true, incFailed]

/-- A trial that leaves the register is taken off the count. -/
theorem Counts.expired (h : s.Counts trials) :
    s.expired.toNat + (if leaving (nPartialCount * 32) trials then 1 else 0) =
      s.nPartialFail.toNat := by
  have hlen : s.pStatBits.length = 16 := h.length
  have hne : s.pStatBits ≠ [] := by
    rintro hnil
    simp [hnil] at hlen
  have hlast : s.pStatBits.getD (nPartialCount - 1) 0 = s.pStatBits.getLast hne := by
    rw [List.getLast_eq_getElem, List.getD_eq_getElem?_getD,
      List.getElem?_eq_getElem (by rw [hlen]; decide)]
    simp [hlen, nPartialCount, checkFailureCountMax]
  have hholds : Holds (s.pStatBits.map UInt32.toBitVec) trials := h.register
  rw [← List.dropLast_concat_getLast hne, List.map_append] at hholds
  have hmsb := hholds.msb (by decide)
  rw [List.length_map, List.length_dropLast, hlen] at hmsb
  have hone := recent_concat (n := nPartialCount * 32) (by decide) trials false
  have hcount := h.partialFail
  rw [Statistics.expired, hlast]
  simp only [high_ne_zero, hmsb]
  rw [show 16 - 1 + 1 = nPartialCount from rfl]
  split
  next hout =>
    rw [if_pos hout, if_neg Bool.false_ne_true, Nat.add_zero, ← hcount] at hone
    have hpos : 1 ≤ s.nPartialFail.toNat := by omega
    have hlt : s.nPartialFail > 0 := UInt32.lt_iff_toNat_lt.mpr hpos
    have hle : 1 ≤ s.nPartialFail := UInt32.le_iff_toNat_le.mpr hpos
    rw [if_pos hlt, UInt32.toNat_sub_of_le _ _ hle]
    exact Nat.sub_add_cancel hpos
  next hstay => rfl

theorem Counts.trial (h : s.Counts trials) (failed : Bool) :
    (trial allowedFailureCount s failed).Counts (trials ++ [failed]) := by
  have hregister := register_trial allowedFailureCount h.length failed
  have hone := recent_concat (n := nPartialCount * 32) (by decide) trials failed
  have hbound := recent_le (nPartialCount * 32) (trials ++ [failed])
  have hfull : nPartialCount * 32 < 2 ^ 32 := by decide
  rw [← h.partialFail, ← h.expired] at hone
  refine ⟨?_, ?_, ?_, ?_, ?_⟩
  · have hlength := congrArg List.length hregister
    rw [shift_length, Statistics.register, Statistics.register, List.length_map, List.length_map] at hlength
    exact hlength.trans h.length
  · rw [hregister]
    exact h.register.shift failed (by decide)
  · have hcount : (Statistics.trial allowedFailureCount s failed).nPartialFail.toNat =
        (s.expired.toNat + if failed then 1 else 0) % 2 ^ 32 := by
      cases failed
      · exact (Nat.mod_eq_of_lt s.expired.toNat_lt).symm
      · exact UInt32.toNat_add _ _
    rw [hcount, Nat.mod_eq_of_lt (by omega)]
    omega
  · have htrial : (Statistics.trial allowedFailureCount s failed).nTotalTrial = s.nTotalTrial + 1 := by
      cases failed <;> rfl
    rw [htrial, UInt32.toNat_add, h.totalTrial, List.length_append, List.length_singleton,
      Nat.mod_add_mod]
    rfl
  · rw [List.count_append, List.count_singleton]
    cases failed
    · exact h.totalFail
    · have hfail : (Statistics.trial allowedFailureCount s true).nTotalFail = s.nTotalFail + 1 := rfl
      rw [hfail, UInt32.toNat_add, h.totalFail, Nat.mod_add_mod]
      rfl

theorem run_counts (allowedFailureCount : UInt32) (trials : List Bool) :
    (run allowedFailureCount trials).Counts trials := by
  induction trials using List.reverseRecOn with
  | nil =>
    refine ⟨List.length_replicate, ?_, rfl, rfl, rfl⟩
    have hzero : (run allowedFailureCount []).register = List.replicate nPartialCount 0#32 :=
      List.map_replicate
    rw [hzero]
    exact holds_replicate nPartialCount
  | append_singleton trials failed ih =>
    rw [run, List.foldl_append]
    exact ih.trial failed

/-- The words have a byte for every trial that they are to hold, so that a failure is counted until
it is eight times as old as it may be. -/
theorem Counts.right_iff (h : s.Counts trials) : s.Right trials ↔
    trials.length < 2 ^ 32 ∧
      recent (nPartialCount * 32) trials = recent checkFailureCountMax trials := by
  have hcount : trials.count true ≤ trials.length := List.count_le_length
  constructor
  · intro hright
    have htotal := hright.totalTrial
    rw [h.totalTrial] at htotal
    exact ⟨by omega, h.partialFail.symm.trans hright.partialFail⟩
  · rintro ⟨hlt, hwindow⟩
    refine ⟨h.partialFail.trans hwindow, ?_, ?_⟩
    · rw [h.totalTrial, Nat.mod_eq_of_lt hlt]
    · rw [h.totalFail, Nat.mod_eq_of_lt (by omega)]

theorem run_right_iff (allowedFailureCount : UInt32) (trials : List Bool) :
    ((run allowedFailureCount trials).Right trials ↔
      trials.length < 2 ^ 32 ∧
        true ∉ (trials.reverse.take (nPartialCount * 32)).drop checkFailureCountMax) ∧
    ((∀ pre, pre <+: trials → (run allowedFailureCount pre).Right pre) ↔
      trials.length < 2 ^ 32 ∧ true ∉ trials.take (trials.length - checkFailureCountMax)) := by
  have hright := fun pre => (run_counts allowedFailureCount pre).right_iff
  have hle : checkFailureCountMax < nPartialCount * 32 := by decide
  constructor
  · rw [hright, recent_mono (Nat.le_of_lt hle), Nat.add_eq_left, List.count_eq_zero]
  · rw [← recent_eq_iff hle]
    simp only [hright]
    constructor
    · intro hall
      exact ⟨(hall trials List.prefix_rfl).1, fun pre hpre => (hall pre hpre).2⟩
    · rintro ⟨hlt, hwindow⟩ pre hpre
      exact ⟨Nat.lt_of_le_of_lt hpre.length_le hlt, hwindow pre hpre⟩

/-- Sixty-four successes after a failure it is still counted. -/
theorem run_counts_old : ¬ (run 10 (true :: List.replicate 64 false)).Right
    (true :: List.replicate 64 false) := by
  intro hright
  have hwindow := ((run_counts 10 _).right_iff.mp hright).2
  have hlong : recent (nPartialCount * 32) (true :: List.replicate 64 false) = 1 := by
    decide +kernel
  have hshort : recent checkFailureCountMax (true :: List.replicate 64 false) = 0 := by
    decide +kernel
  rw [hlong, hshort] at hwindow
  exact Nat.one_ne_zero hwindow

end Statistics

end EdgeNode.Obj
