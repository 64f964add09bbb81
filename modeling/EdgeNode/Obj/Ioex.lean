import EdgeNode.Lib.BufferAccess
import EdgeNode.Sys.Crc16
import EdgeNode.Sys.Ticks
import EdgeNode.Types
import Mathlib.Data.Nat.Find
import Mathlib.Order.Bounds.Basic

/-! The I/O expander: the frames its task takes the inputs from. -/

namespace EdgeNode.Obj.Ioex

open BufferAccess Sys

/-- `FTE_IOEX_DI_MAX`. -/
def diMax : Nat := 16

/-- `ulValidPktLen`. -/
def validPktLen : Nat := diMax + 5

/-- `FTE_IOEX_STATUS`. -/
structure Status where
  ulRetryCount : UInt32
  xLastRequestTime : TimeStruct
  xLastUpdateTime : TimeStruct
  pDI : Fin diMax → Bool

/-- The loop over the received bytes from `i` on, over so many positions. -/
def scan : Nat → Nat → Access Status (Option Nat)
  | 0, _ => pure none
  | k + 1, i => do
    let type ← peek i
    if type = 0x00 then do
      let function ← peek (i + 1)
      if function = 0x02 then do
        let count ← peek (i + 2)
        if count = UInt8.ofNat diMax then pure (some i) else scan k (i + 1)
      else scan k (i + 1)
    else scan k (i + 1)

/-- The inputs after the bytes of a frame. -/
def inputs (frame : List UInt8) : Fin diMax → Bool := fun i => frame.getD (i + 3) 0 ≠ 0

def Status.updated (frame : List UInt8) (update : TimeStruct) (s : Status) : Status :=
  { s with pDI := inputs frame, xLastUpdateTime := update, ulRetryCount := 0 }

/-- What the task makes of `ulRecvLen` received bytes; the low byte of the check is looked at after a
right high one. -/
def receive (ulRecvLen : Nat) (update : TimeStruct) : Access Status Unit :=
  if ulRecvLen ≥ validPktLen then do
    let nIndex ← scan (ulRecvLen - (validPktLen - 1)) 0
    match nIndex with
    | none => pure ()
    | some i => do
      let frame ← peekBytes i (validPktLen - 2)
      let hi ← peek (i + validPktLen - 2)
      if hi = (crc16 frame >>> 8).toUInt8 then do
        let lo ← peek (i + validPktLen - 1)
        if lo = (crc16 frame).toUInt8 then call fun s => ((), s.updated frame update) else pure ()
      else pure ()
  else pure ()

section Frames

/-- The first three bytes of a frame, at `i`. -/
def Header (mem : Nat → UInt8) (i : Nat) : Prop :=
  mem i = 0x00 ∧ mem (i + 1) = 0x02 ∧ mem (i + 2) = UInt8.ofNat diMax

instance (mem : Nat → UInt8) : DecidablePred (Header mem) :=
  fun _ => inferInstanceAs (Decidable (_ ∧ _))

def frameAt (mem : Nat → UInt8) (i : Nat) : List UInt8 := bytesAt mem i (validPktLen - 2)

/-- The check of the frame at `i`, the high byte first. -/
def Checks (mem : Nat → UInt8) (i : Nat) : Prop :=
  mem (i + validPktLen - 2) = (crc16 (frameAt mem i) >>> 8).toUInt8 ∧
    mem (i + validPktLen - 1) = (crc16 (frameAt mem i)).toUInt8

instance (mem : Nat → UInt8) : DecidablePred (Checks mem) :=
  fun _ => inferInstanceAs (Decidable (_ ∧ _))

/-- A header with the rest of a frame among the `n` received bytes. -/
def HeaderAt (mem : Nat → UInt8) (n i : Nat) : Prop := i + validPktLen ≤ n ∧ Header mem i

/-- A complete frame among the `n` received bytes. -/
def FrameAt (mem : Nat → UInt8) (n i : Nat) : Prop := HeaderAt mem n i ∧ Checks mem i

instance (mem : Nat → UInt8) (n : Nat) : DecidablePred (FrameAt mem n) :=
  fun _ => inferInstanceAs (Decidable ((_ ∧ _) ∧ _))

/-- What is to become of the status: the first frame updates it, and nothing else does. -/
structure Stores (mem : Nat → UInt8) (n : Nat) (update : TimeStruct) (s s' : Status) : Prop where
  first : ∀ i, IsLeast {j | FrameAt mem n j} i → s' = s.updated (frameAt mem i) update
  none : (∀ i, ¬ FrameAt mem n i) → s' = s

/-- From any status the task reads received bytes only and stores the first frame. -/
def Extracts (mem : Nat → UInt8) (n : Nat) : Prop :=
  ∀ update s, Safe n 0 (receive n update) (fun _ s' => Stores mem n update s s') mem s

/-- The first of `k` positions from `i` on with a header. -/
def firstHeader (mem : Nat → UInt8) : Nat → Nat → Option Nat
  | 0, _ => none
  | k + 1, i => if Header mem i then some i else firstHeader mem k (i + 1)

variable {mem : Nat → UInt8} {n k i j : Nat} {update : TimeStruct} {s : Status}

theorem firstHeader_eq_none : firstHeader mem k i = none ↔ ∀ j, i ≤ j → j < i + k → ¬ Header mem j := by
  induction k generalizing i with
  | zero => exact iff_of_true rfl fun j hij hj => absurd hj (Nat.not_lt_of_le hij)
  | succ k ih =>
    rw [firstHeader]
    by_cases hi : Header mem i
    · rw [if_pos hi]
      exact iff_of_false (Option.some_ne_none i) fun h => h i (Nat.le_refl i) (by omega) hi
    · rw [if_neg hi, ih]
      constructor
      · intro h j hij hj
        obtain rfl | hlt := Nat.eq_or_lt_of_le hij
        · exact hi
        · exact h j hlt (by omega)
      · exact fun h j hij hj => h j (by omega) (by omega)

theorem firstHeader_eq_some (h : firstHeader mem k i = some j) :
    (i ≤ j ∧ j < i + k ∧ Header mem j) ∧ ∀ l, i ≤ l → l < j → ¬ Header mem l := by
  induction k generalizing i with
  | zero => cases h
  | succ k ih =>
    rw [firstHeader] at h
    split at h
    next hi =>
      cases h
      exact ⟨⟨Nat.le_refl _, by omega, hi⟩, fun l hil hlt => absurd hlt (Nat.not_lt_of_le hil)⟩
    next hi =>
      obtain ⟨⟨hij, hj, hheader⟩, hfirst⟩ := ih h
      refine ⟨⟨by omega, by omega, hheader⟩, fun l hil hlt => ?_⟩
      obtain rfl | hlt' := Nat.eq_or_lt_of_le hil
      · exact hi
      · exact hfirst l hlt' hlt

/-- Two bytes follow each position that is looked at. -/
theorem safe_scan {Q : Option Nat → Status → Prop} (hk : i + k + 2 ≤ n) :
    Safe n 0 (scan k i) Q mem s ↔ Q (firstHeader mem k i) s := by
  induction k generalizing i with
  | zero => simp [scan, firstHeader]
  | succ k ih =>
    have ih := ih (i := i + 1) (by omega)
    have h0 : i < n := by omega
    have h1 : i + 1 < n := by omega
    have h2 : i + 2 < n := by omega
    rw [scan, firstHeader]
    simp only [safe_bind, safe_peek, safe_ite, safe_pure, ih, Header, h0, h1, h2, true_and]
    by_cases hz : mem i = 0
    · by_cases ht : mem (i + 1) = 2
      · by_cases hc : mem (i + 2) = UInt8.ofNat diMax
        · simp [hz, ht, hc]
        · simp [hz, ht, hc]
      · simp [hz, ht]
    · simp [hz]

/-- The frame at the header that was found is taken if its check is right. -/
theorem safe_receive {Q : Unit → Status → Prop} :
    Safe n 0 (receive n update) Q mem s ↔
      match firstHeader mem (n - (validPktLen - 1)) 0 with
      | none => Q () s
      | some i => if Checks mem i then Q () (s.updated (frameAt mem i) update) else Q () s := by
  have hlen : validPktLen = 21 := rfl
  rw [receive, safe_ite]
  by_cases hn : n ≥ validPktLen
  · have hread : 0 + (n - (validPktLen - 1)) + 2 ≤ n := by omega
    simp only [hn, true_implies, not_true_eq_false, false_implies, and_true, safe_bind,
      safe_scan hread]
    cases hfirst : firstHeader mem (n - (validPktLen - 1)) 0 with
    | none => rw [safe_pure]
    | some i =>
      obtain ⟨⟨-, hi, -⟩, -⟩ := firstHeader_eq_some hfirst
      have hframe : i + (validPktLen - 2) ≤ n := by omega
      have hhi : i + validPktLen - 2 < n := by omega
      have hlo : i + validPktLen - 1 < n := by omega
      simp only [safe_bind, safe_peekBytes, safe_peek, safe_ite, safe_call, safe_pure, hframe, hhi,
        hlo, or_true, true_and, Checks, frameAt]
      by_cases h1 : mem (i + validPktLen - 2) =
          (crc16 (bytesAt mem i (validPktLen - 2)) >>> 8).toUInt8
      · by_cases h2 : mem (i + validPktLen - 1) = (crc16 (bytesAt mem i (validPktLen - 2))).toUInt8
        · simp [h1, h2]
        · simp [h1, h2]
      · simp [h1]
  · have hnone : n - (validPktLen - 1) = 0 := by omega
    rw [hnone, firstHeader, safe_pure]
    simp [hn]

theorem receive_state : (receive n update mem s).state =
    match firstHeader mem (n - (validPktLen - 1)) 0 with
    | none => s
    | some i => if Checks mem i then s.updated (frameAt mem i) update else s := by
  have hsafe : Safe n 0 (receive n update) (fun _ t => t =
      match firstHeader mem (n - (validPktLen - 1)) 0 with
      | none => s
      | some i => if Checks mem i then s.updated (frameAt mem i) update else s) mem s := by
    rw [safe_receive]
    cases firstHeader mem (n - (validPktLen - 1)) 0 with
    | none => rfl
    | some i =>
      by_cases hcheck : Checks mem i
      · simp only [if_pos hcheck]
      · simp only [if_neg hcheck]
  exact hsafe.2.2

theorem isLeast_header : firstHeader mem (n - (validPktLen - 1)) 0 = some i ↔
    IsLeast {j | HeaderAt mem n j} i := by
  have hlen : validPktLen = 21 := rfl
  constructor
  · intro h
    obtain ⟨⟨-, hi, hheader⟩, hfirst⟩ := firstHeader_eq_some h
    refine ⟨⟨by omega, hheader⟩, fun j hj => ?_⟩
    by_contra hlt
    exact hfirst j (Nat.zero_le j) (Nat.lt_of_not_le hlt) hj.2
  · intro h
    have hle : i + validPktLen ≤ n := h.1.1
    cases hfirst : firstHeader mem (n - (validPktLen - 1)) 0 with
    | none => exact absurd h.1.2 (firstHeader_eq_none.mp hfirst i (Nat.zero_le i) (by omega))
    | some j =>
      obtain ⟨⟨-, hj, hheader⟩, hbefore⟩ := firstHeader_eq_some hfirst
      have hleast : i ≤ j := h.2 ⟨by omega, hheader⟩
      obtain heq | hlt := Nat.eq_or_lt_of_le hleast
      · rw [heq]
      · exact absurd h.1.2 (hbefore i (Nat.zero_le i) hlt)

theorem exists_first_frame (h : FrameAt mem n j) : ∃ i, IsLeast {j | FrameAt mem n j} i := by
  classical
  have hex : ∃ i, FrameAt mem n i := ⟨j, h⟩
  exact ⟨Nat.find hex, Nat.find_spec hex, fun i hi => Nat.find_min' hex hi⟩

/-- A status that an update changes. -/
def waiting : Status := ⟨1, ⟨0, 0⟩, ⟨0, 0⟩, fun _ => false⟩

theorem updated_ne_waiting (frame : List UInt8) : waiting.updated frame update ≠ waiting := by
  intro h
  have hcount : (0 : UInt32) = 1 := congrArg Status.ulRetryCount h
  exact absurd hcount (by decide)

/-- The search ends at the first header: where its check is wrong, a frame behind it is lost. -/
theorem takes_first_frame_iff : Extracts mem n ↔
    ∀ i, IsLeast {j | HeaderAt mem n j} i → ¬ Checks mem i → ∀ j, ¬ FrameAt mem n j := by
  unfold Extracts
  simp only [safe_receive]
  cases hfirst : firstHeader mem (n - (validPktLen - 1)) 0 with
  | none =>
    have hnone : ∀ j, ¬ HeaderAt mem n j := by
      intro j hj
      have hle : j + 21 ≤ n := hj.1
      have hlen : validPktLen = 21 := rfl
      exact firstHeader_eq_none.mp hfirst j (Nat.zero_le j) (by omega) hj.2
    apply iff_of_true
    · exact fun update s => ⟨fun i hi => absurd hi.1.1 (hnone i), fun _ => rfl⟩
    · exact fun i _ _ j hj => hnone j hj.1
  | some i =>
    have hi := isLeast_header.mp hfirst
    by_cases hcheck : Checks mem i
    · have hleast : IsLeast {j | FrameAt mem n j} i := ⟨⟨hi.1, hcheck⟩, fun j hj => hi.2 hj.1⟩
      apply iff_of_true
      · intro update s
        dsimp only
        rw [if_pos hcheck]
        refine ⟨fun j hj => ?_, fun h => absurd hleast.1 (h i)⟩
        rw [hj.unique hleast]
      · intro j hj hne
        rw [hj.unique hi] at hne
        exact absurd hcheck hne
    · simp only [if_neg hcheck]
      constructor
      · intro h l _ _ j hj
        obtain ⟨f, hf⟩ := exists_first_frame hj
        exact updated_ne_waiting _ ((h ⟨0, 0⟩ waiting).first f hf).symm
      · exact fun h update s => ⟨fun j hj => absurd hj.1 (h i hi hcheck j), fun _ => rfl⟩

/-- Three bytes of noise like a header, and a frame with all inputs off. -/
def noiseThenFrame : Nat → UInt8 := fun i =>
  (([0x00, 0x02, 0x10, 0x00, 0x02, 0x10] ++ List.replicate 16 0x00 ++ [0x59, 0x88] :
    List UInt8)).getD i 0

theorem frame_lost : ¬ Extracts noiseThenFrame 24 := by
  intro h
  have hfirst : IsLeast {j | FrameAt noiseThenFrame 24 j} 3 := by
    refine ⟨by decide +kernel, fun j hj => ?_⟩
    have hnone : ∀ j < 3, ¬ FrameAt noiseThenFrame 24 j := by decide +kernel
    by_contra hlt
    exact hnone j (Nat.lt_of_not_le hlt) hj
  have hstores := (h ⟨0, 0⟩ waiting).2.2.first 3 hfirst
  have hcount : (1 : UInt32) = 0 := by
    have hkept : ((receive 24 ⟨0, 0⟩) noiseThenFrame waiting).state.ulRetryCount = 1 := by
      decide +kernel
    rw [hstores] at hkept
    exact hkept.symm
  exact absurd hcount (by decide)

end Frames

end EdgeNode.Obj.Ioex
