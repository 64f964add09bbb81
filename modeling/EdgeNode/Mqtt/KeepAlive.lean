import EdgeNode.Lib.Runs
import EdgeNode.Sys.Ticks

/-! The keep-alive of the MQTT client: the ping counter and its timer in the loop, the
timeout and the callback of `PINGRESP`. -/

namespace EdgeNode.Mqtt.KeepAlive

open Runs Sys

/-- The fields of the context that the keep-alive uses, the timers of the kernel, and as ghosts the
`PINGREQ`s sent, whether one is unanswered, the timeouts since it was sent, and whether the
connection was dropped for them. -/
structure Client where
  connected : Bool
  ulPingTimeout : Nat
  xPingTimer : Nat
  xTime : TimeStruct
  now : TimeStruct
  timers : List Nat
  lastTimer : Nat
  pings : Nat
  unanswered : Bool
  missed : Nat
  dropped : Bool

/-- `FTE_TIMER_startOneshotAtTicks`: the kernel may be out of timers. -/
def timerStart (ok : Bool) (s : Client) : Bool × Client :=
  if ok then (true, { s with
    xPingTimer := s.lastTimer + 1
    lastTimer := s.lastTimer + 1
    timers := (s.lastTimer + 1) :: s.timers })
  else (false, { s with xPingTimer := 0 })

/-- `FTE_TIMER_cancel(&pCTX->xPingTimer)`: a timer that is not live cannot be cancelled. -/
def timerCancel (s : Client) : Bool × Client :=
  if s.xPingTimer = 0 then (true, s)
  else if s.xPingTimer ∈ s.timers then
    (true, { s with timers := s.timers.erase s.xPingTimer, xPingTimer := 0 })
  else (false, s)

def pingSend (ok : Bool) (s : Client) : Client :=
  match timerStart ok { s with ulPingTimeout := s.ulPingTimeout + 1 } with
  | (false, s) => s
  | (true, s) => { s with pings := s.pings + 1, unanswered := true }

def disconnect (s : Client) : Client :=
  if s.xPingTimer ≠ 0 then { (timerCancel s).2 with ulPingTimeout := 0, connected := false }
  else { s with connected := false }

def pingTimeout (ok : Bool) (s : Client) : Client :=
  if s.ulPingTimeout < 3 then pingSend ok s
  else { disconnect { s with xPingTimer := 0 } with dropped := true }

/-- `FTE_MQTT_MSG_CB_PINGResponse`: the counter is cleared when the timer was not cancelled. -/
def pingResponse (s : Client) : Client :=
  match timerCancel s with
  | (true, s) => s
  | (false, s) => { s with ulPingTimeout := 0 }

def connectAck (s : Client) : Client :=
  { s with
    ulPingTimeout := 0, xPingTimer := 0, connected := true
    unanswered := false, missed := 0, dropped := false }

section Loop

variable (ulKeepalive : UInt32)

/-- The comparison of the loop, over unsigned words. -/
def due (s : Client) : Bool := ulKeepalive - 5 < (diffSeconds s.now s.xTime).toUInt32

/-- The keep-alive period has passed since the last ping of the loop, in the seconds of
`FTE_TIME_diff`. -/
def Elapsed (now xTime : TimeStruct) : Prop :=
  (ulKeepalive.toNat : Int) ≤ (diffSeconds now xTime).toInt

/-- The keep-alive block at the end of a pass of the connected state. -/
def loopPass (ok : Bool) (s : Client) : Client :=
  if s.ulPingTimeout = 0 ∧ due ulKeepalive s then
    { pingSend ok s with xTime := s.now }
  else s

inductive Action where
  | clock (t : TimeStruct)
  | pass (timerOk : Bool)
  | timeout (id : Nat) (timerOk : Bool)
  | pingResp
  | networkDown
  | connect

/-- What the tasks of the client can do next, each callback as a whole. -/
def step (s : Client) : Action → Option (Client)
  | .clock t => some { s with now := t }
  | .pass ok => if s.connected then some (loopPass ulKeepalive ok s) else none
  | .timeout id ok =>
    if id ∈ s.timers then
      some (pingTimeout ok { s with timers := s.timers.erase id, missed := s.missed + 1 })
    else none
  | .pingResp =>
    if s.connected then some { pingResponse s with unanswered := false, missed := 0 } else none
  | .networkDown => if s.connected then some (disconnect s) else none
  | .connect => if s.connected then none else some (connectAck s)

/-- The zeroed context after `FTE_MQTT_init`, before its first connection. -/
def start (t : TimeStruct) : Client where
  connected := false
  ulPingTimeout := 0
  xPingTimer := 0
  xTime := ⟨0, 0⟩
  now := t
  timers := []
  lastTimer := 0
  pings := 0
  unanswered := false
  missed := 0
  dropped := false

/-- What the keep-alive promises in every state: the counter tells whether a ping is unanswered, so
a ping is sent when the period has elapsed, and the connection is dropped for pings at the third
timeout of one and not before. -/
structure Alive (s : Client) : Prop where
  counter : s.connected = true → (s.ulPingTimeout ≠ 0 ↔ s.unanswered = true)
  nextPing : s.connected = true → s.unanswered = false → Elapsed ulKeepalive s.now s.xTime →
    (loopPass ulKeepalive true s).pings = s.pings + 1
  notBefore : s.dropped = true → 3 ≤ s.missed
  atThird : 3 ≤ s.missed → s.connected = false ∧ s.dropped = true

/-- The steps at which the counter stays right and the next ping is not lost: no answer to an
unanswered ping is handled, no ping of the loop is given up for want of a timer, and no connection
without an unanswered ping sees a period of less than 5 seconds elapse. -/
def Allowed (s : Client) : Action → Prop
  | .clock t => s.connected = true → s.unanswered = false → Elapsed ulKeepalive t s.xTime →
      5 ≤ ulKeepalive
  | .connect => Elapsed ulKeepalive s.now s.xTime → 5 ≤ ulKeepalive
  | .pingResp => s.unanswered = false
  | .pass ok => s.ulPingTimeout = 0 → due ulKeepalive s = true → ok = true
  | _ => True

/-- `ulKeepalive - 5` wraps for the periods below 5 seconds, and the pings stop. -/
theorem due_iff {s : Client} (h : Elapsed ulKeepalive s.now s.xTime) :
    due ulKeepalive s = true ↔ 5 ≤ ulKeepalive := by
  rw [due, decide_eq_true_eq]
  unfold Elapsed at h
  generalize diffSeconds s.now s.xTime = diff at h ⊢
  obtain ⟨hdiff, hlt⟩ := toNat_toUInt32 (d := diff) (by omega)
  have hk := ulKeepalive.toNat_lt
  have h5 : (5 : UInt32).toNat = 5 := rfl
  rw [UInt32.lt_iff_toNat_lt, UInt32.toNat_sub, UInt32.le_iff_toNat_le, h5]
  omega

/-- Up to 68 years from the last ping the period has elapsed when the clock is that far from it, two
milliseconds given. -/
theorem elapsed_iff {now xTime : TimeStruct} (h : now.msecs + 2 < xTime.msecs + 2 ^ 31 * 1000)
    (h' : xTime.msecs + 2 < now.msecs + 2 ^ 31 * 1000) : Elapsed ulKeepalive now xTime ↔
      ulKeepalive.toNat * 1000 ≤ ((now.msecs : Int) - xTime.msecs).natAbs + 2 := by
  rw [Elapsed, diffSeconds_toInt h h']
  omega

/-- The invariant of the runs whose steps are allowed: one live timer at most, and a counter that
is one above the timeouts of the unanswered ping. -/
structure Inv (s : Client) : Prop where
  timers : s.timers = if s.xPingTimer = 0 then [] else [s.xPingTimer]
  armed : s.xPingTimer ≠ 0 → s.connected = true ∧ s.ulPingTimeout ≠ 0
  le_three : s.ulPingTimeout ≤ 3
  idle : s.connected = true → s.unanswered = false → s.ulPingTimeout = 0 ∧ s.missed = 0
  waiting : s.connected = true → s.unanswered = true → s.ulPingTimeout = s.missed + 1
  dropped_iff : s.dropped = true ↔ 3 ≤ s.missed
  dropped_down : s.dropped = true → s.connected = false
  period : s.connected = true → s.unanswered = false → Elapsed ulKeepalive s.now s.xTime →
    5 ≤ ulKeepalive

variable {ulKeepalive}

theorem inv_start (t : TimeStruct) : Inv ulKeepalive (start t) := by
  constructor <;> simp [start]

theorem Inv.cancel {s : Client} (h : Inv ulKeepalive s) :
    timerCancel s = (true, { s with timers := [], xPingTimer := 0 }) := by
  have ht := h.timers
  unfold timerCancel
  by_cases hx : s.xPingTimer = 0
  · rw [if_pos hx] at ht ⊢
    simp only [← ht, ← hx]
  · rw [if_neg hx] at ht
    rw [if_neg hx, if_pos (by simp [ht])]
    simp [ht]

theorem Inv.alive {s : Client} (h : Inv ulKeepalive s) : Alive ulKeepalive s where
  counter hc := by
    cases hu : s.unanswered with
    | false => simp [(h.idle hc hu).1]
    | true => simp [h.waiting hc hu]
  nextPing hc hu he := by
    have hdue := (due_iff ulKeepalive he).mpr (h.period hc hu he)
    simp [loopPass, (h.idle hc hu).1, hdue, pingSend, timerStart]
  notBefore := h.dropped_iff.mp
  atThird hm := ⟨h.dropped_down (h.dropped_iff.mpr hm), h.dropped_iff.mpr hm⟩

theorem Inv.disconnect {s : Client} (h : Inv ulKeepalive s) : Inv ulKeepalive (disconnect s) := by
  unfold KeepAlive.disconnect
  split
  · rw [h.cancel]
    exact ⟨by simp, by simp, by simp, by simp, by simp, h.dropped_iff, fun _ => rfl, by simp⟩
  · rename_i hx
    have hx : s.xPingTimer = 0 := by simpa using hx
    exact ⟨h.timers, fun hn => absurd hx hn, h.le_three, by simp, by simp, h.dropped_iff,
      fun _ => rfl, by simp⟩

theorem Inv.of_mem_timers {s : Client} {id : Nat} (h : Inv ulKeepalive s) (hid : id ∈ s.timers) :
    s.timers.erase id = [] ∧ s.connected = true ∧ s.unanswered = true ∧
      s.ulPingTimeout = s.missed + 1 ∧ s.dropped = false := by
  have ht := h.timers
  by_cases hx : s.xPingTimer = 0
  · rw [ht, if_pos hx] at hid
    simp at hid
  rw [if_neg hx] at ht
  have hidx : id = s.xPingTimer := by simpa [ht] using hid
  obtain ⟨hc, hp⟩ := h.armed hx
  have hu : s.unanswered = true := by
    by_contra hu
    exact hp (h.idle hc (by simpa using hu)).1
  have hd : s.dropped = false := by
    by_contra hd
    simp [h.dropped_down (by simpa using hd)] at hc
  exact ⟨by simp [ht, hidx], hc, hu, h.waiting hc hu, hd⟩

theorem inv_pass {s : Client} {ok : Bool} (h : Inv ulKeepalive s) (hc : s.connected = true)
    (ha : Allowed ulKeepalive s (.pass ok)) : Inv ulKeepalive (loopPass ulKeepalive ok s) := by
  unfold loopPass
  split
  · rename_i hp
    have hok : ok = true := ha hp.1 hp.2
    have hx : s.xPingTimer = 0 := by
      by_contra hx
      exact (h.armed hx).2 hp.1
    have hu : s.unanswered = false := by
      by_contra hu
      have hw := h.waiting hc (by simpa using hu)
      omega
    have hm := (h.idle hc hu).2
    have ht := h.timers
    rw [if_pos hx] at ht
    have hd : s.dropped = false := by
      by_contra hd
      have h3 := h.dropped_iff.mp (by simpa using hd)
      omega
    subst hok
    exact ⟨by simp [pingSend, timerStart, ht], by simp [pingSend, timerStart, hc],
      by simp [pingSend, timerStart, hp.1], by simp [pingSend, timerStart],
      by simp [pingSend, timerStart, hp.1, hm], by simp [pingSend, timerStart, hd, hm],
      by simp [pingSend, timerStart, hd], by simp [pingSend, timerStart]⟩
  · exact h

theorem inv_timeout {s : Client} {id : Nat} {ok : Bool} (h : Inv ulKeepalive s)
    (hid : id ∈ s.timers) : Inv ulKeepalive
      (pingTimeout ok { s with timers := s.timers.erase id, missed := s.missed + 1 }) := by
  obtain ⟨he, hc, hu, hp, hd⟩ := h.of_mem_timers hid
  have h3 := h.le_three
  unfold pingTimeout
  split
  · rename_i hlt
    change s.ulPingTimeout < 3 at hlt
    cases ok with
    | true =>
      exact ⟨by simp [pingSend, timerStart, he], by simp [pingSend, timerStart, hc],
        by simp [pingSend, timerStart]; omega, by simp [pingSend, timerStart],
        by simp [pingSend, timerStart, hp], by simp [pingSend, timerStart, hd]; omega,
        by simp [pingSend, timerStart, hd], by simp [pingSend, timerStart]⟩
    | false =>
      exact ⟨by simp [pingSend, timerStart, he], by simp [pingSend, timerStart],
        by simp [pingSend, timerStart]; omega, by simp [pingSend, timerStart, hu],
        by simp [pingSend, timerStart, hp], by simp [pingSend, timerStart, hd]; omega,
        by simp [pingSend, timerStart, hd], by simp [pingSend, timerStart, hu]⟩
  · rename_i hge
    change ¬ s.ulPingTimeout < 3 at hge
    refine ⟨by simp [disconnect, he], by simp [disconnect], by simp [disconnect]; omega,
      by simp [disconnect], by simp [disconnect], ?_, by simp [disconnect], by simp [disconnect]⟩
    simp [disconnect]
    omega

theorem inv_step {s s' : Client} {a : Action} (h : Inv ulKeepalive s)
    (ha : Allowed ulKeepalive s a) (hs : step ulKeepalive s a = some s') :
    Inv ulKeepalive s' := by
  cases a with
  | clock t =>
    cases hs
    exact ⟨h.timers, h.armed, h.le_three, h.idle, h.waiting, h.dropped_iff, h.dropped_down, ha⟩
  | pass ok =>
    simp only [step, Option.ite_none_right_eq_some, Option.some.injEq] at hs
    exact hs.2 ▸ inv_pass h hs.1 ha
  | timeout id ok =>
    simp only [step, Option.ite_none_right_eq_some, Option.some.injEq] at hs
    exact hs.2 ▸ inv_timeout h hs.1
  | pingResp =>
    simp only [step, Option.ite_none_right_eq_some, Option.some.injEq] at hs
    obtain ⟨hc, rfl⟩ := hs
    have hu : s.unanswered = false := ha
    obtain ⟨hp, hm⟩ := h.idle hc hu
    have hd : s.dropped = false := by
      by_contra hd
      simp [h.dropped_down (by simpa using hd)] at hc
    rw [pingResponse, h.cancel]
    exact ⟨by simp, by simp, by simp [hp], by simp [hp], by simp, by simp [hd], by simp [hd],
      fun _ _ => h.period hc hu⟩
  | networkDown =>
    simp only [step, Option.ite_none_right_eq_some, Option.some.injEq] at hs
    exact hs.2 ▸ h.disconnect
  | connect =>
    simp only [step, Option.ite_none_left_eq_some, Option.some.injEq] at hs
    obtain ⟨hc, rfl⟩ := hs
    have ht := h.timers
    rw [if_pos (by by_contra hx; exact hc (h.armed hx).1)] at ht
    exact ⟨by simp [connectAck, ht], by simp [connectAck], by simp [connectAck],
      by simp [connectAck], by simp [connectAck], by simp [connectAck], by simp [connectAck],
      fun _ _ => ha⟩

/-- Once such a short period has elapsed the loop sends no ping. -/
theorem Alive.period {s : Client} (h : Alive ulKeepalive s) (hc : s.connected = true)
    (hu : s.unanswered = false) (he : Elapsed ulKeepalive s.now s.xTime) : 5 ≤ ulKeepalive := by
  by_contra hlt
  have hping := h.nextPing hc hu he
  simp [loopPass, mt (due_iff ulKeepalive he).mp hlt] at hping

end Loop

end EdgeNode.Mqtt.KeepAlive
