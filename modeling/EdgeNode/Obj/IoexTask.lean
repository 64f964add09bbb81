import EdgeNode.Lib.Runs
import EdgeNode.Lib.Words
import EdgeNode.Obj.Ioex

/-! `FTE_IOEX_task`: the passes of its loop over the requests to the I/O expander, its replies and
the pulses of the reset line. -/

namespace EdgeNode.Obj.Ioex

open BufferAccess Runs Sys

/-- `FTE_IOEX_EXT_CONFIG`, and whether there is an object for the reset line. -/
structure Config where
  ulUpdatePeriod : UInt32
  ulRequestTimeout : UInt32
  ulRetryCount : UInt32
  bReset : Bool

/-- One pass of the loop: the clock at its start, after a request and after a reply, and what is
received. -/
structure Pass where
  xCurrentTime : TimeStruct
  request : TimeStruct
  update : TimeStruct
  nRecvdLen : Nat
  ulRecvLen : Nat
  pRecvBuff : Nat → UInt8

inductive Act where
  | idle
  | request
  | reset
  deriving DecidableEq

/-- The three branches, in their order. -/
def act (cfg : Config) (s : Status) (xCurrentTime : TimeStruct) : Act :=
  if (diffMilliseconds xCurrentTime s.xLastUpdateTime).toUInt32 ≥ cfg.ulUpdatePeriod then
    if s.ulRetryCount = 0 then .request
    else if s.ulRetryCount ≥ cfg.ulRetryCount then .reset
    else if (diffMilliseconds xCurrentTime s.xLastRequestTime).toUInt32 ≥ cfg.ulRequestTimeout then
      .request
    else .idle
  else .idle

/-- The task, and as ghosts the last look at the clock, the requests since the last reply or reset, the
last request since the last reply, every pulse with the requests before it and every request with the
unanswered one before it. -/
structure Task where
  status : Status
  clock : Nat
  round : List TimeStruct
  last : Option TimeStruct
  pulses : List (TimeStruct × List TimeStruct)
  requests : List (TimeStruct × Option TimeStruct)

section Task

variable (cfg : Config)

def poll (p : Pass) (u : Task) : Task :=
  match act cfg u.status p.xCurrentTime with
  | .idle => u
  | .request =>
    { u with
      status := { u.status with
        xLastRequestTime := p.request
        ulRetryCount := u.status.ulRetryCount + 1 }
      round := p.request :: u.round
      last := some p.request
      requests := (p.request, u.last) :: u.requests }
  | .reset =>
    { u with
      status := { u.status with ulRetryCount := 0 }
      round := []
      pulses := if cfg.bReset then (p.xCurrentTime, u.round) :: u.pulses else u.pulses }

/-- The frame that a pass takes the inputs from. -/
def taken (p : Pass) : Option (List UInt8) :=
  if p.nRecvdLen ≥ validPktLen then
    (firstHeader p.pRecvBuff (p.ulRecvLen - (validPktLen - 1)) 0).bind fun i =>
      if Checks p.pRecvBuff i then some (frameAt p.pRecvBuff i) else none
  else none

/-- What the task receives in a pass. -/
def recv (p : Pass) (s : Status) : Status :=
  if p.nRecvdLen ≥ validPktLen then (receive p.ulRecvLen p.update p.pRecvBuff s).state else s

def answer (p : Pass) (u : Task) : Task :=
  { u with
    status := recv p u.status
    round := if (taken p).isSome then [] else u.round
    last := if (taken p).isSome then none else u.last }

/-- A pass; the clock does not run backwards. -/
def step (u : Task) (p : Pass) : Option Task :=
  if u.clock ≤ p.xCurrentTime.msecs ∧ p.xCurrentTime.msecs ≤ p.request.msecs ∧
      p.request.msecs ≤ p.update.msecs then
    some (answer p (poll cfg p { u with clock := p.update.msecs }))
  else none

/-- The task at the start of its loop. -/
def start (s : Status) (xCurrentTime : TimeStruct) : Task :=
  ⟨{ s with ulRetryCount := 0, xLastUpdateTime := xCurrentTime }, xCurrentTime.msecs, [], none, [], []⟩

end Task

section Policy

variable (cfg : Config)

/-- So long after the request. -/
def Waited (r t : TimeStruct) : Prop := r.msecs + cfg.ulRequestTimeout.toNat ≤ t.msecs

/-- Every pulse follows the configured number of requests that have waited for their reply, and every
request waits for that of the one before it. -/
structure Keeps (u : Task) : Prop where
  pulses : ∀ e ∈ u.pulses, cfg.ulRetryCount.toNat ≤ e.2.length ∧ ∀ r ∈ e.2, Waited cfg r e.1
  requests : ∀ e ∈ u.requests, ∀ r ∈ e.2, Waited cfg r e.1

/-- A pass that resets comes when the last request has waited, and so does the first request of a
round after one without a reply. -/
def Allowed (u : Task) (p : Pass) : Prop :=
  match act cfg u.status p.xCurrentTime with
  | .idle => True
  | .request => u.status.ulRetryCount = 0 → ∀ r ∈ u.last, Waited cfg r p.request
  | .reset => cfg.bReset = true → Waited cfg u.status.xLastRequestTime p.xCurrentTime

structure Inv (u : Task) : Prop where
  keeps : Keeps cfg u
  count : u.status.ulRetryCount.toNat = u.round.length
  last : u.round ≠ [] → u.status.xLastRequestTime ∈ u.round ∧ u.last = some u.status.xLastRequestTime
  newest : ∀ r ∈ u.round, r.msecs ≤ u.status.xLastRequestTime.msecs
  past : ∀ r ∈ u.last, r = u.status.xLastRequestTime ∧ r.msecs ≤ u.clock

variable {cfg} {u v : Task} {p : Pass} {s : Status}

/-- The loop compares words; what passes the test has waited. -/
theorem waited_of_ge {r t : TimeStruct} (h : r.msecs ≤ t.msecs)
    (hge : (diffMilliseconds t r).toUInt32 ≥ cfg.ulRequestTimeout) : Waited cfg r t := by
  have hword := cfg.ulRequestTimeout.toNat_lt
  unfold Waited
  by_cases hlt : t.msecs < r.msecs + 2 ^ 32
  · have hdiff := diffMilliseconds_toUInt32 h hlt
    have hle := UInt32.le_iff_toNat_le.mp hge
    omega
  · omega

/-- A pass with a reply updates the status, any other leaves it. -/
theorem recv_eq (p : Pass) (s : Status) : recv p s =
    match taken p with
    | some frame => s.updated frame p.update
    | none => s := by
  unfold recv taken
  split
  next h =>
    rw [receive_state]
    cases firstHeader p.pRecvBuff (p.ulRecvLen - (validPktLen - 1)) 0 with
    | none => rfl
    | some i =>
      dsimp only
      rw [Option.bind_some]
      split
      next => rfl
      next => rfl
  next => rfl

/-- A reply ends the round. -/
theorem answer_cases (p : Pass) (u : Task) : answer p u = u ∨
    ∃ frame, answer p u =
      { u with status := u.status.updated frame p.update, round := [], last := none } := by
  have hrecv := recv_eq p u.status
  unfold answer
  rw [hrecv]
  cases taken p with
  | none => exact .inl rfl
  | some frame => exact .inr ⟨frame, rfl⟩

theorem keeps_answer (p : Pass) : Keeps cfg (answer p u) ↔ Keeps cfg u :=
  ⟨fun h => ⟨h.pulses, h.requests⟩, fun h => ⟨h.pulses, h.requests⟩⟩

theorem answer_inv (h : Inv cfg u) (p : Pass) : Inv cfg (answer p u) := by
  obtain hsame | ⟨frame, hnew⟩ := answer_cases p u
  · rw [hsame]
    exact h
  · have hkeeps := (keeps_answer p).mpr h.keeps
    rw [hnew] at hkeeps ⊢
    exact ⟨hkeeps, rfl, fun hne => absurd rfl hne, fun r hr => absurd hr List.not_mem_nil,
      fun r hr => by cases hr⟩

theorem act_request {t : TimeStruct} (h : act cfg s t = .request) : s.ulRetryCount = 0 ∨
    (s.ulRetryCount.toNat < cfg.ulRetryCount.toNat ∧
      (diffMilliseconds t s.xLastRequestTime).toUInt32 ≥ cfg.ulRequestTimeout) := by
  unfold act at h
  split at h
  next =>
    split at h
    next hzero => exact .inl hzero
    next =>
      split at h
      next => cases h
      next hretry =>
        split at h
        next hwait => exact .inr ⟨Nat.lt_of_not_le (mt UInt32.le_iff_toNat_le.mpr hretry), hwait⟩
        next => cases h
  next => cases h

theorem act_reset {t : TimeStruct} (h : act cfg s t = .reset) :
    s.ulRetryCount ≠ 0 ∧ cfg.ulRetryCount.toNat ≤ s.ulRetryCount.toNat := by
  unfold act at h
  split at h
  next =>
    split at h
    next => cases h
    next hzero =>
      split at h
      next hretry => exact ⟨hzero, UInt32.le_iff_toNat_le.mp hretry⟩
      next =>
        split at h
        next => cases h
        next => cases h
  next => cases h

theorem Inv.round_ne_nil (h : Inv cfg u) (hcount : u.status.ulRetryCount ≠ 0) : u.round ≠ [] := by
  intro hnil
  have hzero := h.count
  rw [hnil] at hzero
  exact hcount (UInt32.toNat_inj.mp hzero)

/-- The requests of a round are no later than the last look at the clock. -/
theorem Inv.newest_le (h : Inv cfg u) (hne : u.round ≠ []) :
    u.status.xLastRequestTime.msecs ≤ u.clock := by
  obtain ⟨-, hlast⟩ := h.last hne
  exact (h.past _ hlast).2

/-- A request is logged with the one before it, which has waited for its reply. -/
theorem request_waited (h : Inv cfg u) (ha : Allowed cfg u p)
    (hact : act cfg u.status p.xCurrentTime = .request) (hclock : u.clock ≤ p.xCurrentTime.msecs)
    (hreq : p.xCurrentTime.msecs ≤ p.request.msecs) : ∀ r ∈ u.last, Waited cfg r p.request := by
  unfold Allowed at ha
  rw [hact] at ha
  obtain hzero | ⟨-, hge⟩ := act_request hact
  · exact ha hzero
  · intro r hr
    obtain ⟨rfl, hpast⟩ := h.past r hr
    have hwaited : Waited cfg u.status.xLastRequestTime p.xCurrentTime :=
      waited_of_ge (by omega) hge
    unfold Waited at hwaited ⊢
    omega

theorem poll_inv (h : Inv cfg u) (ha : Allowed cfg u p) (hclock : u.clock ≤ p.xCurrentTime.msecs)
    (hreq : p.xCurrentTime.msecs ≤ p.request.msecs) (hupdate : p.request.msecs ≤ p.update.msecs) :
    Inv cfg (poll cfg p { u with clock := p.update.msecs }) := by
  have hlater : u.clock ≤ p.update.msecs := by omega
  unfold poll
  dsimp only
  cases hact : act cfg u.status p.xCurrentTime with
  | idle =>
    exact ⟨⟨h.keeps.pulses, h.keeps.requests⟩, h.count, h.last, h.newest,
      fun r hr => ⟨(h.past r hr).1, Nat.le_trans (h.past r hr).2 hlater⟩⟩
  | request =>
    have hroom : u.status.ulRetryCount.toNat + 1 < 2 ^ 32 := by
      have hword := cfg.ulRetryCount.toNat_lt
      obtain hzero | ⟨hlt, -⟩ := act_request hact
      · rw [hzero]
        decide
      · omega
    refine ⟨⟨h.keeps.pulses, List.forall_mem_cons.mpr
      ⟨request_waited h ha hact hclock hreq, h.keeps.requests⟩⟩, ?_,
      fun _ => ⟨List.mem_cons_self, rfl⟩, ?_, ?_⟩
    · dsimp only
      rw [Words.toNat_succ hroom, h.count, List.length_cons]
    · dsimp only
      rw [List.forall_mem_cons]
      refine ⟨Nat.le_refl _, fun r hr => ?_⟩
      have hle := h.newest r hr
      have hnow := h.newest_le (List.ne_nil_of_mem hr)
      show r.msecs ≤ p.request.msecs
      omega
    · rintro r ⟨⟩
      exact ⟨rfl, hupdate⟩
  | reset =>
    obtain ⟨hne, hretry⟩ := act_reset hact
    have hround := h.round_ne_nil hne
    unfold Allowed at ha
    rw [hact] at ha
    refine ⟨⟨?_, h.keeps.requests⟩, rfl, fun hnil => absurd rfl hnil,
      fun r hr => absurd hr List.not_mem_nil,
      fun r hr => ⟨(h.past r hr).1, Nat.le_trans (h.past r hr).2 hlater⟩⟩
    dsimp only
    split
    next hb =>
      rw [List.forall_mem_cons]
      refine ⟨⟨?_, fun r hr => ?_⟩, h.keeps.pulses⟩
      · show cfg.ulRetryCount.toNat ≤ u.round.length
        rw [← h.count]
        exact hretry
      · have hle := h.newest r hr
        have hwaited := ha hb
        unfold Waited at hwaited ⊢
        show r.msecs + _ ≤ p.xCurrentTime.msecs
        omega
    next => exact h.keeps.pulses

theorem step_spec (hs : step cfg u p = some v) : u.clock ≤ p.xCurrentTime.msecs ∧
    p.xCurrentTime.msecs ≤ p.request.msecs ∧ p.request.msecs ≤ p.update.msecs ∧
    v = answer p (poll cfg p { u with clock := p.update.msecs }) := by
  unfold step at hs
  split at hs
  next htime =>
    cases hs
    exact ⟨htime.1, htime.2.1, htime.2.2, rfl⟩
  next => cases hs

theorem inv_step (h : Inv cfg u) (ha : Allowed cfg u p) (hs : step cfg u p = some v) :
    Inv cfg v := by
  obtain ⟨hclock, hreq, hupdate, rfl⟩ := step_spec hs
  exact answer_inv (poll_inv h ha hclock hreq hupdate) p

/-- An early reset and an early first request are in the log. -/
theorem not_keeps_step (h : Inv cfg u) (ha : ¬ Allowed cfg u p) (hs : step cfg u p = some v) :
    ¬ Keeps cfg v := by
  obtain ⟨-, -, -, rfl⟩ := step_spec hs
  rw [keeps_answer]
  intro hkeeps
  apply ha
  unfold Allowed
  unfold poll at hkeeps
  dsimp only at hkeeps
  cases hact : act cfg u.status p.xCurrentTime with
  | idle => trivial
  | request =>
    rw [hact] at hkeeps
    intro _ r hr
    exact hkeeps.requests _ List.mem_cons_self r hr
  | reset =>
    rw [hact] at hkeeps
    intro hb
    have hround := h.round_ne_nil (act_reset hact).1
    have hpulses := hkeeps.pulses
    dsimp only at hpulses
    rw [if_pos hb] at hpulses
    exact (hpulses _ List.mem_cons_self).2 _ (h.last hround).1

/-- The policy holds along a run exactly when no pass resets early and none begins a round early. -/
theorem keeps_iff (s : Status) (t : TimeStruct) (passes : List Pass)
    (hv : exec (step cfg) passes (start s t) = some v) :
    (∀ u, Visits (step cfg) (start s t) passes u → Keeps cfg u) ↔
      ∀ u p, Takes (step cfg) (start s t) passes u p → Allowed cfg u p := by
  have hstart : Inv cfg (start s t) :=
    ⟨⟨fun e he => absurd he List.not_mem_nil, fun e he => absurd he List.not_mem_nil⟩, rfl,
      fun hne => absurd rfl hne, fun r hr => absurd hr List.not_mem_nil, fun r hr => by cases hr⟩
  exact visits_iff_takes hstart (fun _ _ _ => inv_step) (fun _ h => h.keeps)
    (fun _ _ _ => not_keeps_step) hv

section Default

/-- The defaults of the configuration. -/
def defaults : Config := ⟨3000, 500, 3, true⟩

/-- A pass at a time after the start in which nothing is received. -/
def quiet (ms : UInt32) : Pass := ⟨⟨0, ms⟩, ⟨0, ms⟩, ⟨0, ms⟩, 0, 0, fun _ => 0⟩

/-- The third request is given a tenth of a second. -/
theorem third_request_cut_short : ¬ ∀ u, Visits (step defaults) (start waiting ⟨0, 0⟩)
    ([3000, 3500, 4000, 4100].map quiet) u → Keeps defaults u := by
  intro h
  obtain ⟨u, hu, hpulses⟩ : ∃ u, exec (step defaults) ([3000, 3500, 4000, 4100].map quiet)
      (start waiting ⟨0, 0⟩) = some u ∧
        u.pulses = [(⟨0, 4100⟩, [⟨0, 4000⟩, ⟨0, 3500⟩, ⟨0, 3000⟩])] :=
    ⟨_, rfl, by decide +kernel⟩
  have hkeeps := (h u ⟨_, List.prefix_rfl, hu⟩).pulses
  rw [hpulses] at hkeeps
  have hwaited := (hkeeps _ List.mem_cons_self).2 ⟨0, 4000⟩ List.mem_cons_self
  exact absurd hwaited (by unfold Waited; decide)

/-- Two requests half a second apart. -/
theorem keeps_two_requests :
    (∀ u, Visits (step defaults) (start waiting ⟨0, 0⟩) ([3000, 3500].map quiet) u →
      Keeps defaults u) ↔
    ∀ u p, Takes (step defaults) (start waiting ⟨0, 0⟩) ([3000, 3500].map quiet) u p →
      Allowed defaults u p :=
  keeps_iff waiting ⟨0, 0⟩ ([3000, 3500].map quiet) rfl

end Default

end Policy

end EdgeNode.Obj.Ioex
