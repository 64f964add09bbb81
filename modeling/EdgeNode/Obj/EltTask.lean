import EdgeNode.Lib.Runs
import EdgeNode.Lib.Words
import EdgeNode.Obj.Aqm100

/-! `FTE_ELT_task`: the passes of its loop over the updates of an ELT sensor, and how often these
are counted. -/

namespace EdgeNode.Obj.Elt

open BufferAccess Runs Sys

/-- `FTE_ELT_EXT_CONFIG`, and the failures that the system allows. -/
structure Config where
  ulUpdatePeriod : UInt32
  ulRetryCount : UInt32
  allowedFailureCount : UInt32

inductive Model where
  | aqm100
  | aqm100m
  deriving DecidableEq

/-- What an update function is given: the bytes received or the registers read. -/
structure Answer where
  nRcvdLen : Nat
  pRcvdBuff : Nat → UInt8
  xRet : Ret
  pRegs : Field → Int16

/-- One pass of the loop. -/
structure Pass where
  xCurrentTime : TimeStruct
  readings : Readings
  answer : Answer

section Task

variable (cfg : Config) (model : Model)

/-- `fUpdate` of the model. -/
def update (p : Pass) (s : Status) : Ret × Status :=
  match model with
  | .aqm100 =>
    let r := aqm100Update p.answer.nRcvdLen p.readings p.answer.pRcvdBuff s
    (r.val, r.state)
  | .aqm100m =>
    aqm100mUpdate cfg.allowedFailureCount cfg.ulRetryCount p.answer.xRet p.answer.pRegs p.readings s

/-- The times since the last update and the last request, which are signed, as words. -/
def Due (s : Status) (p : Pass) : Prop :=
  (diffMilliseconds p.xCurrentTime s.xLastUpdateTime).toUInt32 ≥ cfg.ulUpdatePeriod ∧
    (diffMilliseconds p.xCurrentTime s.xLastRequestTime).toUInt32 ≥ cfg.ulUpdatePeriod

instance (s : Status) (p : Pass) : Decidable (Due cfg s p) := inferInstanceAs (Decidable (_ ∧ _))

/-- The status of the sensor, and as a ghost the outcomes of the updates so far. -/
structure Task where
  status : Status
  outcomes : List Bool

def settle (u : Task) (r : Ret × Status) : Task :=
  if r.1 = retOk then ⟨r.2.succeed, u.outcomes ++ [true]⟩
  else ⟨r.2.fail cfg.allowedFailureCount cfg.ulRetryCount, u.outcomes ++ [false]⟩

def step (u : Task) (p : Pass) : Option Task :=
  if Due cfg u.status p then some (settle cfg u (update cfg model p u.status)) else some u

/-- What the task does before its loop. -/
def start (s : Status) (xCurrentTime : TimeStruct) : Task :=
  ⟨{ s with ulRetryCount := 0, xLastUpdateTime := xCurrentTime }, []⟩

end Task

section Tally

/-- The failures since the last success, and what is to be counted. -/
structure Tally where
  streak : Nat
  trials : Nat
  fails : Nat

/-- A success is a trial, and so is every `r + 1` failures in a row. -/
def Tally.next (r : Nat) (c : Tally) (ok : Bool) : Tally :=
  if ok then ⟨0, c.trials + 1, c.fails⟩
  else if (c.streak + 1) % (r + 1) = 0 then ⟨c.streak + 1, c.trials + 1, c.fails + 1⟩
  else ⟨c.streak + 1, c.trials, c.fails⟩

def tally (r : Nat) (outcomes : List Bool) : Tally := outcomes.foldl (Tally.next r) ⟨0, 0, 0⟩

theorem tally_concat (r : Nat) (outcomes : List Bool) (ok : Bool) :
    tally r (outcomes ++ [ok]) = (tally r outcomes).next r ok := by
  rw [tally, List.foldl_append]
  rfl

end Tally

section Counters

/-- The counters that a success or a failure changes. -/
structure Counters where
  nTotalTrial : UInt32
  nTotalFail : UInt32
  ulRetryCount : UInt32

def Status.counters (s : Status) : Counters :=
  ⟨s.xStatistics.nTotalTrial, s.xStatistics.nTotalFail, s.ulRetryCount⟩

def Counters.succeed (c : Counters) : Counters := ⟨c.nTotalTrial + 1, c.nTotalFail, 0⟩

def Counters.fail (r : UInt32) (c : Counters) : Counters :=
  if c.ulRetryCount ≥ r then ⟨c.nTotalTrial + 1, c.nTotalFail + 1, 0⟩
  else ⟨c.nTotalTrial, c.nTotalFail, c.ulRetryCount + 1⟩

/-- A failed update, before the task counts it. -/
def Counters.failUpdate (r : UInt32) (c : Counters) : Model → Counters
  | .aqm100 => c
  | .aqm100m => c.fail r

variable {s : Status}

theorem counters_succeed : s.succeed.counters = s.counters.succeed := rfl

theorem counters_fail (a r : UInt32) : (s.fail a r).counters = s.counters.fail r := by
  unfold Status.fail Counters.fail
  have hr : s.counters.ulRetryCount = s.ulRetryCount := rfl
  rw [hr]
  split
  · rfl
  · rfl

theorem succ_mod_succ (k r : Nat) :
    (k + 1) % (r + 1) = if k % (r + 1) = r then 0 else k % (r + 1) + 1 := by
  have hlt : k % (r + 1) < r + 1 := Nat.mod_lt k (Nat.succ_pos r)
  rw [← Nat.mod_add_mod]
  split
  next h => rw [h, Nat.mod_self]
  next h => exact Nat.mod_eq_of_lt (by omega)

section Fail

variable {c : Counters} {r : UInt32} {k : Nat}

theorem fail_counted (h : r.toNat ≤ c.ulRetryCount.toNat) :
    c.fail r = ⟨c.nTotalTrial + 1, c.nTotalFail + 1, 0⟩ :=
  if_pos (UInt32.le_iff_toNat_le.mpr h)

theorem fail_retried (h : c.ulRetryCount.toNat < r.toNat) :
    c.fail r = ⟨c.nTotalTrial, c.nTotalFail, c.ulRetryCount + 1⟩ :=
  if_neg fun hle => Nat.not_le_of_lt h (UInt32.le_iff_toNat_le.mp hle)

/-- One failure for each update: the retries are the failures in a row since the last that counts. -/
theorem fail_of_streak (h : c.ulRetryCount.toNat = k % (r.toNat + 1)) :
    (c.fail r).ulRetryCount.toNat = (k + 1) % (r.toNat + 1) ∧
      (c.fail r).nTotalTrial =
        c.nTotalTrial + (if (k + 1) % (r.toNat + 1) = 0 then 1 else 0) ∧
      (c.fail r).nTotalFail = c.nTotalFail + (if (k + 1) % (r.toNat + 1) = 0 then 1 else 0) := by
  have hlt : k % (r.toNat + 1) < r.toNat + 1 := Nat.mod_lt k (Nat.succ_pos _)
  have hr := r.toNat_lt
  rw [succ_mod_succ]
  by_cases hfull : k % (r.toNat + 1) = r.toNat
  · rw [fail_counted (by omega), if_pos hfull, if_pos rfl]
    exact ⟨rfl, rfl, rfl⟩
  · rw [fail_retried (by omega), if_neg hfull, if_neg (Nat.succ_ne_zero _), UInt32.add_zero,
      UInt32.add_zero, ← h]
    exact ⟨Words.toNat_succ (by omega), rfl, rfl⟩

/-- Two failures for each update: the retries are used up in half as many updates. -/
theorem fail_fail_of_streak (h : c.ulRetryCount.toNat = 2 * k) (hk : 2 * (k + 1) ≤ r.toNat) :
    (c.fail r).fail r = ⟨c.nTotalTrial, c.nTotalFail, c.ulRetryCount + 1 + 1⟩ ∧
      (c.ulRetryCount + 1 + 1).toNat = 2 * (k + 1) := by
  have hr := r.toNat_lt
  have hone : (c.ulRetryCount + 1).toNat = c.ulRetryCount.toNat + 1 := Words.toNat_succ (by omega)
  have htwo : (c.ulRetryCount + 1 + 1).toNat = (c.ulRetryCount + 1).toNat + 1 :=
    Words.toNat_succ (by omega)
  constructor
  · have hfirst : c.ulRetryCount.toNat < r.toNat := by omega
    have hsecond : (c.ulRetryCount + 1).toNat < r.toNat := by omega
    rw [fail_retried hfirst]
    exact fail_retried hsecond
  · omega

theorem fail_fail_early (h : c.ulRetryCount.toNat = 2 * k) (hk : 2 * k ≤ r.toNat)
    (hfull : r.toNat < 2 * (k + 1)) :
    ((c.fail r).fail r).nTotalTrial ≠
      c.nTotalTrial + (if (k + 1) % (r.toNat + 1) = 0 then 1 else 0) := by
  have hnext : ∀ n : UInt32, n + 1 ≠ n + 0 := fun n h =>
    absurd ((UInt32.add_right_inj n).mp h) (by decide)
  have hpos : (⟨c.nTotalTrial + 1, c.nTotalFail + 1, 0⟩ : Counters).ulRetryCount.toNat = 0 := rfl
  obtain heven | hodd := Nat.eq_or_lt_of_le hk
  · -- the first failure is counted, and without retries the second one too
    rw [fail_counted (c := c) (by omega)]
    by_cases hzero : k = r.toNat
    · have hnow : (k + 1) % (r.toNat + 1) = 0 := by rw [hzero, Nat.mod_self]
      rw [if_pos hnow, fail_counted (by omega)]
      exact fun h => hnext _ (h.trans (UInt32.add_zero _).symm)
    · have hlate : (k + 1) % (r.toNat + 1) ≠ 0 := by
        rw [Nat.mod_eq_of_lt (by omega)]
        exact Nat.succ_ne_zero k
      rw [if_neg hlate, fail_retried (by omega)]
      exact hnext _
  · have hlate : (k + 1) % (r.toNat + 1) ≠ 0 := by
      rw [Nat.mod_eq_of_lt (by omega)]
      exact Nat.succ_ne_zero k
    have hone : (c.ulRetryCount + 1).toNat = c.ulRetryCount.toNat + 1 := by
      have hr := r.toNat_lt
      exact Words.toNat_succ (by omega)
    have hlast : r.toNat ≤ (c.ulRetryCount + 1).toNat := by omega
    rw [if_neg hlate, fail_retried (c := c) (by omega), fail_counted hlast]
    exact hnext _

end Fail

end Counters

section Update

variable {cfg : Config} {model : Model} {s : Status} {mem : Nat → UInt8}

@[simp] theorem yields_scan (k : Nat)
    (Q : Option Nat → Status → List (Nat × UInt8) → Prop) :
    Yields (scan k) Q mem s ↔ Q (lastMarks mem k) s [] := by
  induction k with
  | zero => simp [scan, lastMarks]
  | succ k ih =>
    rw [scan, lastMarks]
    simp only [yields_bind, yields_peek, yields_ite, yields_pure, ih, Marks, List.nil_append]
    by_cases hstart : mem k = 0xFA
    · by_cases hend : mem (k + 11) = 0x05
      · simp [hstart, hend]
      · simp [hstart, hend]
    · simp [hstart]

theorem aqm100Update_counters (n : Nat) (t : Readings) :
    Yields (aqm100Update n t) (fun xRet s' _ =>
      s'.counters = if xRet = retOk then s.counters.succeed else s.counters) mem s := by
  rw [aqm100Update, yields_bind, yields_call, yields_bind, yields_scan]
  cases lastMarks mem (n - 10) with
  | none => exact (if_neg retError_ne).symm
  | some i =>
    simp only [yields_bind, yields_peekBytes, yields_peek, yields_ite, yields_call]
    refine ⟨fun _ => (if_neg retError_ne).symm, fun _ => ?_⟩
    rw [if_pos trivial]
    rfl

/-- What an update does to the counters before the task does the same again. -/
theorem update_counters (p : Pass) : (update cfg model p s).2.counters =
    if (update cfg model p s).1 = retOk then s.counters.succeed
    else s.counters.failUpdate cfg.ulRetryCount model := by
  cases model with
  | aqm100 => exact aqm100Update_counters _ _
  | aqm100m =>
    by_cases hret : p.answer.xRet = retOk
    · have hupdate : update cfg .aqm100m p s = (retOk, _) := if_neg (not_not_intro hret)
      rw [hupdate, if_pos rfl]
      exact counters_succeed
    · have hupdate : update cfg .aqm100m p s = (p.answer.xRet, _) := if_pos hret
      rw [hupdate, if_neg hret]
      exact counters_fail _ _

end Update

section Count

/-- The counters since the start are those of the outcomes. -/
def Counted (cfg : Config) (before : Counters) (u : Task) : Prop :=
  u.status.counters.nTotalTrial =
      before.nTotalTrial + UInt32.ofNat (tally cfg.ulRetryCount.toNat u.outcomes).trials ∧
    u.status.counters.nTotalFail =
      before.nTotalFail + UInt32.ofNat (tally cfg.ulRetryCount.toNat u.outcomes).fails

/-- No update succeeds, and those of an AQM100M are too few to use up the retries, of which each takes
two. -/
def Allowed (cfg : Config) (model : Model) (u : Task) (p : Pass) : Prop :=
  Due cfg u.status p → (update cfg model p u.status).1 ≠ retOk ∧
    (model = .aqm100m → 2 * (u.outcomes.length + 1) ≤ cfg.ulRetryCount.toNat)

/-- The retries that the failures so far have left in the shared counter. -/
def retries (cfg : Config) : Model → Nat → Nat
  | .aqm100, k => k % (cfg.ulRetryCount.toNat + 1)
  | .aqm100m, k => 2 * k

structure Inv (cfg : Config) (model : Model) (before : Counters) (u : Task) : Prop where
  counted : Counted cfg before u
  streak : (tally cfg.ulRetryCount.toNat u.outcomes).streak = u.outcomes.length
  retry : u.status.counters.ulRetryCount.toNat = retries cfg model u.outcomes.length
  room : model = .aqm100m → 2 * u.outcomes.length ≤ cfg.ulRetryCount.toNat

variable {cfg : Config} {model : Model} {before : Counters} {u v : Task} {p : Pass}

/-- A pass leaves the task as it is, counts a success twice or counts a failure as often as the model
does. -/
theorem step_cases (h : step cfg model u p = some v) :
    (¬ Due cfg u.status p ∧ v = u) ∨
    (Due cfg u.status p ∧ (update cfg model p u.status).1 = retOk ∧
      v.outcomes = u.outcomes ++ [true] ∧
      v.status.counters = u.status.counters.succeed.succeed) ∨
    (Due cfg u.status p ∧ (update cfg model p u.status).1 ≠ retOk ∧
      v.outcomes = u.outcomes ++ [false] ∧
      v.status.counters =
        (u.status.counters.failUpdate cfg.ulRetryCount model).fail cfg.ulRetryCount) := by
  have hu : (update cfg model p u.status).2.counters =
      if (update cfg model p u.status).1 = retOk then u.status.counters.succeed
      else u.status.counters.failUpdate cfg.ulRetryCount model := update_counters p
  unfold step at h
  split at h
  next hdue =>
    cases h
    by_cases hret : (update cfg model p u.status).1 = retOk
    · rw [if_pos hret] at hu
      have hv : settle cfg u (update cfg model p u.status) = _ := if_pos hret
      refine .inr (.inl ⟨hdue, hret, ?_, ?_⟩)
      · rw [hv]
      · rw [hv, counters_succeed, hu]
    · rw [if_neg hret] at hu
      have hv : settle cfg u (update cfg model p u.status) = _ := if_neg hret
      refine .inr (.inr ⟨hdue, hret, ?_, ?_⟩)
      · rw [hv]
      · rw [hv, counters_fail, hu]
  next hdue =>
    cases h
    exact .inl ⟨hdue, rfl⟩

theorem step_total (cfg : Config) (model : Model) (u : Task) (p : Pass) :
    ∃ v, step cfg model u p = some v := by
  unfold step
  split
  · exact ⟨_, rfl⟩
  · exact ⟨_, rfl⟩

theorem counted_next {ok : Bool} {n m : Nat} (h : Counted cfg before u)
    (hv : v.outcomes = u.outcomes ++ [ok])
    (hn : ((tally cfg.ulRetryCount.toNat u.outcomes).next cfg.ulRetryCount.toNat ok).trials =
      (tally cfg.ulRetryCount.toNat u.outcomes).trials + n)
    (hm : ((tally cfg.ulRetryCount.toNat u.outcomes).next cfg.ulRetryCount.toNat ok).fails =
      (tally cfg.ulRetryCount.toNat u.outcomes).fails + m) :
    Counted cfg before v ↔
      v.status.counters.nTotalTrial = u.status.counters.nTotalTrial + UInt32.ofNat n ∧
        v.status.counters.nTotalFail = u.status.counters.nTotalFail + UInt32.ofNat m := by
  unfold Counted
  rw [hv, tally_concat, hn, hm, UInt32.ofNat_add, UInt32.ofNat_add, ← UInt32.add_assoc,
    ← UInt32.add_assoc, ← h.1, ← h.2]

theorem next_false (r : Nat) (c : Tally) :
    (c.next r false).streak = c.streak + 1 ∧
      (c.next r false).trials = c.trials + (if (c.streak + 1) % (r + 1) = 0 then 1 else 0) ∧
      (c.next r false).fails = c.fails + (if (c.streak + 1) % (r + 1) = 0 then 1 else 0) := by
  unfold Tally.next
  rw [if_neg Bool.false_ne_true]
  split
  · exact ⟨rfl, rfl, rfl⟩
  · exact ⟨rfl, rfl, rfl⟩

/-- A failure is to be counted with the last of its retries. -/
theorem Inv.counted_false (h : Inv cfg model before u) (hv : v.outcomes = u.outcomes ++ [false]) :
    Counted cfg before v ↔
      v.status.counters.nTotalTrial = u.status.counters.nTotalTrial +
          (if (u.outcomes.length + 1) % (cfg.ulRetryCount.toNat + 1) = 0 then 1 else 0) ∧
        v.status.counters.nTotalFail = u.status.counters.nTotalFail +
          (if (u.outcomes.length + 1) % (cfg.ulRetryCount.toNat + 1) = 0 then 1 else 0) := by
  obtain ⟨-, htrials, hfails⟩ := next_false cfg.ulRetryCount.toNat
    (tally cfg.ulRetryCount.toNat u.outcomes)
  rw [counted_next h.counted hv htrials hfails, h.streak]
  by_cases hlast : (u.outcomes.length + 1) % (cfg.ulRetryCount.toNat + 1) = 0
  · rw [if_pos hlast, if_pos hlast]
    rfl
  · rw [if_neg hlast, if_neg hlast]
    rfl

theorem Inv.streak_false (h : Inv cfg model before u) (hv : v.outcomes = u.outcomes ++ [false]) :
    (tally cfg.ulRetryCount.toNat v.outcomes).streak = v.outcomes.length := by
  rw [hv, tally_concat, (next_false _ _).1, h.streak, List.length_append]
  rfl

theorem inv_step (h : Inv cfg model before u) (ha : Allowed cfg model u p)
    (hs : step cfg model u p = some v) : Inv cfg model before v := by
  obtain ⟨-, rfl⟩ | ⟨hdue, hret, -⟩ | ⟨hdue, -, hv, hc⟩ := step_cases hs
  · exact h
  · exact absurd hret (ha hdue).1
  · have hlen : v.outcomes.length = u.outcomes.length + 1 := by rw [hv, List.length_append]; rfl
    have hroom := (ha hdue).2
    cases model with
    | aqm100 =>
      obtain ⟨hretry, htrial, hfail⟩ := fail_of_streak h.retry
      refine ⟨(h.counted_false hv).mpr ?_, h.streak_false hv, ?_, fun hm => by cases hm⟩
      · rw [hc]
        exact ⟨htrial, hfail⟩
      · rw [hc, hlen]
        exact hretry
    | aqm100m =>
      have hroom := hroom rfl
      obtain ⟨hsame, hretry⟩ := fail_fail_of_streak h.retry hroom
      have hlate : (u.outcomes.length + 1) % (cfg.ulRetryCount.toNat + 1) ≠ 0 := by
        rw [Nat.mod_eq_of_lt (by omega)]
        exact Nat.succ_ne_zero _
      rw [Counters.failUpdate, hsame] at hc
      refine ⟨(h.counted_false hv).mpr ?_, h.streak_false hv, ?_, fun _ => ?_⟩
      · rw [hc, if_neg hlate, UInt32.add_zero, UInt32.add_zero]
        exact ⟨rfl, rfl⟩
      · rw [hc, hlen]
        exact hretry
      · rw [hlen]
        exact hroom

theorem not_counted_step (h : Inv cfg model before u) (ha : ¬ Allowed cfg model u p)
    (hs : step cfg model u p = some v) : ¬ Counted cfg before v := by
  obtain ⟨hdue, -⟩ | ⟨hdue, hret, hv, hc⟩ | ⟨hdue, hret, hv, hc⟩ := step_cases hs
  · exact absurd (fun hd => absurd hd hdue) ha
  · -- a success is counted by the update and again by the task
    rw [counted_next (n := 1) (m := 0) h.counted hv rfl rfl, hc]
    rintro ⟨htrial, -⟩
    have htwice : u.status.counters.nTotalTrial + 1 + 1 = u.status.counters.nTotalTrial + 1 + 0 :=
      htrial.trans (UInt32.add_zero _).symm
    exact absurd ((UInt32.add_right_inj _).mp htwice) (by decide)
  · cases model with
    | aqm100 => exact absurd (fun _ => ⟨hret, fun hm => by cases hm⟩) ha
    | aqm100m =>
      have hfull : cfg.ulRetryCount.toNat < 2 * (u.outcomes.length + 1) := by
        by_contra hle
        exact ha fun _ => ⟨hret, fun _ => Nat.le_of_not_lt hle⟩
      rw [h.counted_false hv, hc]
      exact fun hcount => fail_fail_early h.retry (h.room rfl) hfull hcount.1

/-- The sensors' updates and the task count the same outcomes on the same counters. -/
theorem counted_iff (s : Status) (t : TimeStruct) (passes : List Pass) :
    (∀ u, Visits (step cfg model) (start s t) passes u → Counted cfg s.counters u) ↔
      ∀ u p, Takes (step cfg model) (start s t) passes u p → Allowed cfg model u p := by
  obtain ⟨v, hv⟩ := exec_total (step cfg model) (step_total cfg model) passes (start s t)
  have hstart : Inv cfg model s.counters (start s t) := by
    refine ⟨⟨(UInt32.add_zero _).symm, (UInt32.add_zero _).symm⟩, rfl, ?_, fun _ => Nat.zero_le _⟩
    cases model
    · exact (Nat.zero_mod _).symm
    · rfl
  exact visits_iff_takes hstart (fun _ _ _ => inv_step) (fun _ h => h.counted)
    (fun _ _ _ => not_counted_step) hv

/-- A pass twenty seconds after the start, in which the registers are read. -/
def passRead : Pass :=
  ⟨⟨20, 0⟩, ⟨⟨20, 1⟩, ⟨20, 2⟩⟩, ⟨0, fun _ => 0, retOk, fun _ => 400⟩⟩

/-- The one successful update makes two trials. -/
theorem success_counted_twice :
    ¬ ∀ u, Visits (step ⟨10000, 3, 10⟩ .aqm100m) (start status0 ⟨0, 0⟩) [passRead] u →
      Counted ⟨10000, 3, 10⟩ status0.counters u := by
  intro h
  obtain ⟨u, hu, hn, ho⟩ : ∃ u, exec (step ⟨10000, 3, 10⟩ .aqm100m) [passRead]
      (start status0 ⟨0, 0⟩) = some u ∧ u.status.counters.nTotalTrial = 2 ∧ u.outcomes = [true] :=
    ⟨_, rfl, rfl, rfl⟩
  have hvisit : Visits (step ⟨10000, 3, 10⟩ .aqm100m) (start status0 ⟨0, 0⟩) [passRead] u :=
    ⟨_, List.prefix_rfl, hu⟩
  obtain ⟨hcount, -⟩ := h u hvisit
  rw [hn, ho] at hcount
  exact absurd hcount (by decide)

end Count

end EdgeNode.Obj.Elt
