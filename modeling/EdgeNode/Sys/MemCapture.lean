import EdgeNode.Lib.Runs
import EdgeNode.Lib.Words
import EdgeNode.Types

/-! The record that `FTE_MEM` keeps of the allocations while a capture runs. -/

namespace EdgeNode.Sys

open Runs

section Definitions

/-- `FTE_MEM_BLOCK`; an entry that is not used has the address 0. -/
structure MemBlock where
  ulSize : UInt32
  pMem : Nat

def memCaptureCount : UInt32 := 300
def memCaptureSkipCount : UInt32 := 300

/-- The variables of the capture, but for the one that only adds to what is printed. -/
structure MemCapture where
  nTotalSize : UInt32
  ulMemTuples : UInt32
  ulMemTuplesMax : UInt32
  pMemTuples : Option (List MemBlock)
  bCapture : Bool
  ulSkipCount : UInt32

def MemCapture.boot : MemCapture := ⟨0, 0, 0, none, false, 0⟩

/-- `FTE_MEM_CAPTURE_create`; `table` says whether there is memory. The size of the table, of entries
of 8 bytes, is a word. -/
def captureCreate (ulTuples : UInt32) (table : Bool) (s : MemCapture) : Ret × MemCapture :=
  if s.pMemTuples.isSome || ulTuples == 0 then (retError, s)
  else if table then
    (retOk, { s with
      pMemTuples := some (List.replicate ((8 * ulTuples).toNat / 8) ⟨0, 0⟩)
      ulMemTuples := 0
      ulMemTuplesMax := ulTuples })
  else (retError, s)

/-- `FTE_MEM_CAPTURE_destroy` -/
def captureDestroy (s : MemCapture) : MemCapture :=
  if s.pMemTuples.isNone then s
  else { s with ulMemTuplesMax := 0, ulMemTuples := 0, pMemTuples := none }

/-- The table that an allocation or a free makes where there is none. -/
def captureDefault (table : Bool) (s : MemCapture) : MemCapture :=
  if s.pMemTuples.isNone then (captureCreate memCaptureCount table s).2 else s

def MemCapture.tuples (s : MemCapture) : List MemBlock := s.pMemTuples.getD []

/-- The loop that looks for a tuple; none where it leaves the table. -/
def findTuple (matching : MemBlock → Bool) (s : MemCapture) : Option (Option Nat) :=
  match (s.tuples.take s.ulMemTuplesMax.toNat).findIdx? matching with
  | some i => some (some i)
  | none => if s.ulMemTuplesMax.toNat ≤ s.tuples.length then some none else none

/-- `_FTE_MEM_DEBUG_alloc` and `_FTE_MEM_DEBUG_allocZero`, where the memory gives `pBlock`. -/
def debugAlloc (ulSize : UInt32) (table : Bool) (pBlock : Nat) (s : MemCapture) :
    Option MemCapture :=
  if s.bCapture then
    let s := captureDefault table s
    if pBlock = 0 then some s
    else if s.ulSkipCount < memCaptureSkipCount then
      some { s with ulSkipCount := s.ulSkipCount + 1 }
    else if s.ulMemTuples < s.ulMemTuplesMax then
      (findTuple (fun b => b.pMem == 0) s).map fun
        | some i => { s with
            ulMemTuples := s.ulMemTuples + 1
            pMemTuples := some (s.tuples.set i ⟨ulSize, pBlock⟩)
            nTotalSize := s.nTotalSize + ulSize }
        | none => s
    else some s
  else some s

/-- `_FTE_MEM_DEBUG_free` -/
def debugFree (table : Bool) (pMem : Nat) (s : MemCapture) : Option MemCapture :=
  if s.bCapture then
    let s := captureDefault table s
    if pMem = 0 then some s
    else (findTuple (fun b => b.pMem == pMem) s).map fun
      | some i => { s with
          nTotalSize := s.nTotalSize - (s.tuples.getD i ⟨0, 0⟩).ulSize
          pMemTuples := some (s.tuples.set i ⟨0, 0⟩)
          ulMemTuples := s.ulMemTuples - 1 }
      | none => s
  else some s

inductive MemAction where
  | alloc (ulSize : UInt32) (table : Bool) (pBlock : Nat)
  | free (table : Bool) (pMem : Nat)
  | capture (table : Bool)
  | captureCount (ulCount : Option UInt32) (table : Bool)
  | stop
  | clear

/-- The allocations, the frees and the commands of `FTE_MEM_SHELL_cmd`. -/
def memStep (s : MemCapture) : MemAction → Option MemCapture
  | .alloc ulSize table pBlock => debugAlloc ulSize table pBlock s
  | .free table pMem => debugFree table pMem s
  | .capture table =>
    if s.bCapture then some s else some { captureDefault table s with bCapture := true }
  | .captureCount ulCount table =>
    if s.bCapture && s.pMemTuples.isSome then some s
    else
      match ulCount with
      | none => some s
      | some ulCount =>
        let (xRet, s) := captureCreate ulCount table s
        some (if xRet = retOk then { s with bCapture := true } else s)
  | .stop => some { s with bCapture := false }
  | .clear => some (if s.bCapture then s else captureDestroy s)

def recorded (l : List MemBlock) : List MemBlock := l.filter fun b => b.pMem ≠ 0

def recordedSize (l : List MemBlock) : Nat := ((recorded l).map fun b => b.ulSize.toNat).sum

/-- What the shell reports is what is recorded. -/
structure Accounted (s : MemCapture) : Prop where
  total : s.nTotalSize.toNat = recordedSize s.tuples
  count : s.ulMemTuples.toNat = (recorded s.tuples).length

/-- The record is cleared while it is empty of bytes, and what is recorded stays within a word. -/
def MemKept (s : MemCapture) : MemAction → Prop
  | .alloc ulSize _ pBlock => s.bCapture = true → pBlock ≠ 0 → memCaptureSkipCount ≤ s.ulSkipCount →
      s.ulMemTuples < s.ulMemTuplesMax → s.nTotalSize.toNat + ulSize.toNat < 2 ^ 32
  | .clear => s.bCapture = false → s.pMemTuples.isSome = true → s.nTotalSize = 0
  | _ => True

end Definitions

section Tables

variable {l : List MemBlock} {i : Nat} {b c : MemBlock}

theorem recorded_replicate (n : Nat) : recorded (List.replicate n ⟨0, 0⟩) = [] := by
  simp [recorded]

theorem split_set (hb : l[i]? = some b) : ∃ before behind, l = before ++ b :: behind ∧
    ∀ c, l.set i c = before ++ c :: behind := by
  obtain ⟨hi, rfl⟩ := List.getElem?_eq_some_iff.mp hb
  refine ⟨l.take i, l.drop (i + 1), by simp, fun c => ?_⟩
  rw [List.set_eq_take_append_cons_drop, if_pos hi]

theorem recorded_unused {before behind : List MemBlock} (h : b.pMem = 0) :
    recorded (before ++ b :: behind) = recorded (before ++ behind) := by
  simp [recorded, h]

theorem recorded_used {before behind : List MemBlock} (h : b.pMem ≠ 0) :
    recordedSize (before ++ b :: behind) = recordedSize (before ++ behind) + b.ulSize.toNat ∧
      (recorded (before ++ b :: behind)).length = (recorded (before ++ behind)).length + 1 := by
  have hcons : recorded (before ++ b :: behind) = recorded before ++ b :: recorded behind := by
    simp [recorded, h]
  have happend : recorded (before ++ behind) = recorded before ++ recorded behind :=
    List.filter_append before behind
  rw [recordedSize, recordedSize, hcons, happend]
  simp
  omega

theorem recorded_fill (hb : l[i]? = some b) (hfree : b.pMem = 0) (hc : c.pMem ≠ 0) :
    recordedSize (l.set i c) = recordedSize l + c.ulSize.toNat ∧
      (recorded (l.set i c)).length = (recorded l).length + 1 := by
  obtain ⟨before, behind, hl, hset⟩ := split_set hb
  have hold : recorded l = recorded (before ++ behind) := by rw [hl, recorded_unused hfree]
  rw [hset, recordedSize.eq_def l, hold]
  exact recorded_used hc

theorem recorded_remove (hb : l[i]? = some b) (hused : b.pMem ≠ 0) :
    recordedSize l = recordedSize (l.set i ⟨0, 0⟩) + b.ulSize.toNat ∧
      (recorded l).length = (recorded (l.set i ⟨0, 0⟩)).length + 1 := by
  obtain ⟨before, behind, hl, hset⟩ := split_set hb
  have hnew : recorded (l.set i ⟨0, 0⟩) = recorded (before ++ behind) := by
    rw [hset, recorded_unused rfl]
  rw [recordedSize.eq_def (l.set i ⟨0, 0⟩), hnew, hl]
  exact recorded_used hused

theorem recorded_full {n : Nat} (hn : n ≤ l.length)
    (h : (l.take n).findIdx? (fun b => b.pMem == 0) = none) : n ≤ (recorded l).length := by
  have hall : recorded (l.take n) = l.take n := by
    apply List.filter_eq_self.mpr
    intro b hb
    have hne := List.findIdx?_eq_none_iff.mp h b hb
    simpa using hne
  have hsub := ((List.take_sublist n l).filter fun b => decide (b.pMem ≠ 0)).length_le
  calc
    n = (recorded (l.take n)).length := by rw [hall, List.length_take_of_le hn]
    _ ≤ (recorded l).length := hsub

end Tables

section Steps

variable {s u : MemCapture}

theorem findTuple_some {matching : MemBlock → Bool} {i : Nat}
    (h : findTuple matching s = some (some i)) : ∃ b, s.tuples[i]? = some b ∧ matching b = true := by
  rw [findTuple] at h
  split at h
  next j hj =>
    cases h
    obtain ⟨hi, hb, -⟩ := List.findIdx?_eq_some_iff_getElem.mp hj
    rw [List.getElem_take] at hb
    rw [List.length_take] at hi
    exact ⟨_, List.getElem?_eq_getElem (by omega), hb⟩
  next => split at h <;> cases h

theorem findTuple_none {matching : MemBlock → Bool} (h : findTuple matching s = some none) :
    (s.tuples.take s.ulMemTuplesMax.toNat).findIdx? matching = none ∧
      s.ulMemTuplesMax.toNat ≤ s.tuples.length := by
  rw [findTuple] at h
  split at h
  next => cases h
  next hnone =>
    split at h
    next hle => exact ⟨hnone, hle⟩
    next => cases h

/-- A new table is empty, and so was the record where there was none. -/
theorem captureCreate_accounted (h : Accounted s) (ulTuples : UInt32) (table : Bool) :
    Accounted (captureCreate ulTuples table s).2 := by
  rw [captureCreate]
  split
  · exact h
  next hnone =>
    split
    · have hempty : s.tuples = [] := by
        cases hp : s.pMemTuples with
        | none => simp [MemCapture.tuples, hp]
        | some l => simp [hp] at hnone
      have htotal := h.total
      rw [hempty] at htotal
      refine ⟨?_, ?_⟩
      · rw [recordedSize, MemCapture.tuples, Option.getD_some, recorded_replicate]
        exact htotal
      · rw [MemCapture.tuples, Option.getD_some, recorded_replicate]
        rfl
    · exact h

theorem captureDefault_accounted (h : Accounted s) (table : Bool) :
    Accounted (captureDefault table s) := by
  rw [captureDefault]
  split
  · exact captureCreate_accounted h memCaptureCount table
  · exact h

theorem captureDefault_kept (table : Bool) : (captureDefault table s).bCapture = s.bCapture ∧
    (captureDefault table s).nTotalSize = s.nTotalSize ∧
    (captureDefault table s).ulSkipCount = s.ulSkipCount := by
  rw [captureDefault, captureCreate]
  split
  · split
    · exact ⟨rfl, rfl, rfl⟩
    · split <;> exact ⟨rfl, rfl, rfl⟩
  · exact ⟨rfl, rfl, rfl⟩

theorem accounted_iff {l : List MemBlock} (hl : s.pMemTuples = some l) : Accounted s ↔
    s.nTotalSize.toNat = recordedSize l ∧ s.ulMemTuples.toNat = (recorded l).length := by
  have htuples : s.tuples = l := by rw [MemCapture.tuples, hl, Option.getD_some]
  constructor
  · intro h
    rw [← htuples]
    exact ⟨h.total, h.count⟩
  · rintro ⟨htotal, hcount⟩
    rw [← htuples] at htotal hcount
    exact ⟨htotal, hcount⟩

theorem record_accounted_iff (h : Accounted s) {i : Nat} {b : MemBlock} {ulSize : UInt32}
    {pBlock : Nat} (hb : s.tuples[i]? = some b) (hfree : b.pMem = 0) (hblock : pBlock ≠ 0)
    (hroom : s.ulMemTuples < s.ulMemTuplesMax) :
    Accounted { s with
      ulMemTuples := s.ulMemTuples + 1
      pMemTuples := some (s.tuples.set i ⟨ulSize, pBlock⟩)
      nTotalSize := s.nTotalSize + ulSize } ↔ s.nTotalSize.toNat + ulSize.toNat < 2 ^ 32 := by
  obtain ⟨hsize, hcount⟩ := recorded_fill (c := ⟨ulSize, pBlock⟩) hb hfree hblock
  have hnext : (s.ulMemTuples + 1).toNat = s.ulMemTuples.toNat + 1 := by
    have hmax := s.ulMemTuplesMax.toNat_lt
    rw [UInt32.lt_iff_toNat_lt] at hroom
    exact Words.toNat_succ (by omega)
  have htotal := UInt32.toNat_add s.nTotalSize ulSize
  have hword := (s.nTotalSize + ulSize).toNat_lt
  rw [accounted_iff rfl, hsize, hcount, ← h.total, ← h.count, and_iff_left hnext]
  show (s.nTotalSize + ulSize).toNat = s.nTotalSize.toNat + ulSize.toNat ↔ _
  omega

theorem remove_accounted (h : Accounted s) {i : Nat} {b : MemBlock} (hb : s.tuples[i]? = some b)
    (hused : b.pMem ≠ 0) :
    Accounted { s with
      nTotalSize := s.nTotalSize - (s.tuples.getD i ⟨0, 0⟩).ulSize
      pMemTuples := some (s.tuples.set i ⟨0, 0⟩)
      ulMemTuples := s.ulMemTuples - 1 } := by
  obtain ⟨hsize, hcount⟩ := recorded_remove hb hused
  have hget : s.tuples.getD i ⟨0, 0⟩ = b := by
    rw [List.getD_eq_getElem?_getD, hb, Option.getD_some]
  have htotal : (s.nTotalSize - b.ulSize).toNat = s.nTotalSize.toNat - b.ulSize.toNat := by
    apply UInt32.toNat_sub_of_le
    rw [UInt32.le_iff_toNat_le, h.total, hsize]
    exact Nat.le_add_left _ _
  have hone : (s.ulMemTuples - 1).toNat = s.ulMemTuples.toNat - 1 := by
    apply Words.toNat_pred
    rw [h.count, hcount]
    exact Nat.succ_pos _
  rw [accounted_iff rfl, hget]
  dsimp only
  rw [htotal, hone, h.total, h.count, hsize, hcount]
  exact ⟨Nat.add_sub_cancel .., Nat.add_sub_cancel ..⟩

/-- Where there is no table yet, the total is zero, and no size is too much. -/
theorem fits_default_iff (h : Accounted s) (ulSize : UInt32) (table : Bool) :
    ((captureDefault table s).ulMemTuples < (captureDefault table s).ulMemTuplesMax →
        s.nTotalSize.toNat + ulSize.toNat < 2 ^ 32) ↔
      (s.ulMemTuples < s.ulMemTuplesMax → s.nTotalSize.toNat + ulSize.toNat < 2 ^ 32) := by
  rw [captureDefault]
  cases hp : s.pMemTuples with
  | some l => rfl
  | none =>
    have htotal : s.nTotalSize.toNat = 0 := by
      rw [h.total, MemCapture.tuples, hp]
      rfl
    have hfits : s.nTotalSize.toNat + ulSize.toNat < 2 ^ 32 := by
      rw [htotal, Nat.zero_add]
      exact ulSize.toNat_lt
    exact iff_of_true (fun _ => hfits) fun _ => hfits

theorem debugAlloc_accounted_iff (h : Accounted s) {ulSize : UInt32} {table : Bool} {pBlock : Nat}
    (hs : debugAlloc ulSize table pBlock s = some u) :
    Accounted u ↔ MemKept s (.alloc ulSize table pBlock) := by
  have hd := captureDefault_accounted h table
  obtain ⟨hcapture, htotal, hskip⟩ := captureDefault_kept (s := s) table
  have hfits := fits_default_iff h ulSize table
  rw [debugAlloc] at hs
  split at hs
  next hrun =>
    dsimp only at hs
    split at hs
    next hnull =>
      cases hs
      exact iff_of_true hd fun _ hblock => absurd hnull hblock
    next hblock =>
      split at hs
      next hfew =>
        cases hs
        refine iff_of_true ⟨hd.total, hd.count⟩ fun _ _ hmany => ?_
        rw [hskip] at hfew
        exact absurd hfew (UInt32.not_lt.mpr hmany)
      next hmany =>
        rw [hskip, UInt32.not_lt] at hmany
        have hkept : MemKept s (.alloc ulSize table pBlock) ↔ _ :=
          ⟨fun hk => hk hrun hblock hmany, fun hk _ _ _ => hk⟩
        rw [hkept, ← hfits]
        split at hs
        next hroom =>
          obtain ⟨found, hfind, hu⟩ := Option.map_eq_some_iff.mp hs
          rw [forall_prop_of_true hroom]
          cases found with
          | none =>
            obtain ⟨hfull, hlen⟩ := findTuple_none hfind
            have hmax := recorded_full hlen hfull
            rw [← hd.count] at hmax
            exact absurd hroom (UInt32.not_lt.mpr hmax)
          | some i =>
            subst hu
            obtain ⟨b, hb, hmatch⟩ := findTuple_some hfind
            rw [← htotal]
            exact record_accounted_iff hd hb (eq_of_beq hmatch) hblock hroom
        next hroom =>
          cases hs
          exact iff_of_true hd fun hlt => absurd hlt hroom
  next hstop =>
    cases hs
    exact iff_of_true h fun hrun => absurd hrun hstop

theorem debugFree_accounted (h : Accounted s) {table : Bool} {pMem : Nat}
    (hs : debugFree table pMem s = some u) : Accounted u := by
  rw [debugFree] at hs
  have hd := captureDefault_accounted h table
  split at hs
  · dsimp only at hs
    split at hs
    · cases hs
      exact hd
    next hpMem =>
      obtain ⟨found, hfind, hu⟩ := Option.map_eq_some_iff.mp hs
      cases found with
      | none =>
        subst hu
        exact hd
      | some i =>
        subst hu
        obtain ⟨b, hb, hmatch⟩ := findTuple_some hfind
        apply remove_accounted hd hb
        rw [eq_of_beq hmatch]
        exact hpMem
  · cases hs
    exact h

theorem captureDestroy_accounted_iff (h : Accounted s) :
    Accounted (captureDestroy s) ↔ (s.pMemTuples.isSome = true → s.nTotalSize = 0) := by
  rw [captureDestroy]
  cases hp : s.pMemTuples with
  | none => exact iff_of_true h fun hsome => absurd hsome Bool.false_ne_true
  | some l =>
    rw [Option.isSome_some, forall_prop_of_true rfl, ← UInt32.toNat_inj]
    exact ⟨fun hu => hu.total, fun hzero => ⟨hzero, rfl⟩⟩

/-- A step keeps the account exactly where it is allowed. -/
theorem memStep_accounted_iff {a : MemAction} (h : Accounted s) (hs : memStep s a = some u) :
    Accounted u ↔ MemKept s a := by
  cases a with
  | alloc ulSize table pBlock => exact debugAlloc_accounted_iff h hs
  | free table pMem => exact iff_of_true (debugFree_accounted h hs) trivial
  | capture table =>
    have hd := captureDefault_accounted h table
    rw [memStep] at hs
    split at hs <;> cases hs
    · exact iff_of_true h trivial
    · exact iff_of_true ⟨hd.total, hd.count⟩ trivial
  | captureCount ulCount table =>
    simp only [memStep] at hs
    split at hs
    · cases hs
      exact iff_of_true h trivial
    · cases ulCount with
      | none =>
        cases hs
        exact iff_of_true h trivial
      | some ulCount =>
        have hc := captureCreate_accounted h ulCount table
        cases hs
        split
        · exact iff_of_true ⟨hc.total, hc.count⟩ trivial
        · exact iff_of_true hc trivial
  | stop =>
    cases hs
    exact iff_of_true ⟨h.total, h.count⟩ trivial
  | clear =>
    cases hs
    split
    next hrun => exact iff_of_true h fun hstop => absurd hrun (by simp [hstop])
    next hrun =>
      rw [captureDestroy_accounted_iff h]
      exact ⟨fun hzero _ => hzero, fun hkept => hkept (Bool.eq_false_iff.mpr hrun)⟩

theorem boot_accounted : Accounted .boot := ⟨rfl, rfl⟩

/-- In a run from the boot the report is what is recorded exactly when the record is never cleared
while it has bytes and what is recorded fits in the word of the total. -/
theorem accounted_runs_iff {acts : List MemAction} {t : MemCapture}
    (ht : exec memStep acts .boot = some t) :
    (∀ u, Visits memStep .boot acts u → Accounted u) ↔
      ∀ u a, Takes memStep .boot acts u a → MemKept u a :=
  visits_iff_takes_of_step boot_accounted (fun _ _ _ h hs => memStep_accounted_iff h hs) ht

end Steps

section Captures

instance (s : MemCapture) : DecidablePred (MemKept s)
  | .alloc _ _ _ => inferInstanceAs (Decidable (_ → _ → _ → _ → _))
  | .clear => inferInstanceAs (Decidable (_ → _ → _))
  | .free _ _ | .capture _ | .captureCount _ _ | .stop => .isTrue trivial

/-- The allocations that a capture leaves out, and one of 100 bytes that it records. -/
def firstRecorded : List MemAction :=
  .captureCount (some 1) true :: List.replicate 301 (.alloc 100 true 0x20000000)

/-- A record of 100 bytes is cleared, and the total of 100 bytes stays. -/
theorem clear_keeps_total : ∃ u, exec memStep (firstRecorded ++ [.stop, .clear]) .boot = some u ∧
    u.nTotalSize = 100 ∧ u.ulMemTuples = 0 ∧ ¬ Accounted u := by
  obtain ⟨u, hu⟩ : ∃ u, exec memStep (firstRecorded ++ [.stop, .clear]) .boot = some u :=
    Option.isSome_iff_exists.mp (by decide +kernel)
  have hrun : (exec memStep (firstRecorded ++ [.stop, .clear]) .boot).map
      (fun u => (u.nTotalSize, u.ulMemTuples, u.pMemTuples.isNone)) = some (100, 0, true) := by
    decide +kernel
  rw [hu, Option.map_some, Option.some.injEq, Prod.mk.injEq, Prod.mk.injEq] at hrun
  obtain ⟨htotal, hcount, htable⟩ := hrun
  refine ⟨u, hu, htotal, hcount, fun h => ?_⟩
  have hzero := h.total
  rw [htotal, MemCapture.tuples, Option.isNone_iff_eq_none.mp htable] at hzero
  exact absurd hzero (by decide)

/-- The block is freed before the record is cleared. -/
def freedFirst : List MemAction := firstRecorded ++ [.free true 0x20000000, .stop, .clear]

theorem accounted_freedFirst : ∃ u, exec memStep freedFirst .boot = some u ∧ Accounted u := by
  have hreturns : (exec memStep freedFirst .boot).isSome = true := by decide +kernel
  obtain ⟨u, hu⟩ := Option.isSome_iff_exists.mp hreturns
  have haccount := (accounted_runs_iff hu).mpr (takes_of_along (by decide +kernel))
  exact ⟨u, hu, haccount u ⟨freedFirst, List.prefix_rfl, hu⟩⟩

end Captures

end EdgeNode.Sys
