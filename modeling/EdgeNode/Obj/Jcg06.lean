import EdgeNode.Lib.Runs
import EdgeNode.Sys.Dates
import EdgeNode.Ucs.GetRegs
import EdgeNode.Values.Text

/-! The rain gauge JCG06: its two requests, and the reset of the rainfall on a new day. -/

namespace EdgeNode.Obj

open Sys Ucs Values Runs

/-- A request on the line, and the fields stored out of what is received for it, each with the frame
that its value is taken from. -/
structure Exchange where
  pSendData : List UInt8
  stores : List (Nat × List UInt8)
deriving DecidableEq

namespace Jcg06

section Requests

/-- The part of `FTE_FUTURETEK_STATUS` that the requests change. -/
structure Status where
  pValue : Nat → Values.Value
  xLastRequestTime : TimeStruct
  xLastUpdateTime : TimeStruct

/-- What an update finds: the readings of the clock, what is received for the request and for the
reset, and what a comparison of dates gives that were not converted. -/
structure Reading where
  xRequestTime : TimeStruct
  pRcvd : List UInt8
  xCurrentTime : TimeStruct
  stack : Bool
  xResetTime : TimeStruct
  pResetRcvd : List UInt8
  xUpdateTime : TimeStruct

def rainfallRequest : List UInt8 := [0x02, 0x04, 0x00, 0x00, 0x00, 0x01, 0x31, 0xF9]

def resetRequest : List UInt8 := [0x02, 0x10, 0x00, 0x00, 0x00, 0x01, 0x02, 0x00, 0x00, 0xB2, 0xA0]

/-- The tests of a reply in a buffer of `ulLen` bytes: it is full, and the check stands at its end. -/
def accepts (ulLen : Nat) (pRcvdData : List UInt8) : Bool :=
  pRcvdData.length = ulLen &&
    wordAt pRcvdData (ulLen - 2) = some (crc16 (pRcvdData.take (ulLen - 2)))

/-- `FTE_VALUE_setMM` and `FTE_VALUE_setDIO`. -/
def setValue (i : Nat) (ulValue : UInt32) (s : Status) : Status :=
  { s with pValue := Function.update s.pValue i (accept (s.pValue i) ulValue).2 }

/-- `FTE_FUTURETEK_JCG06_resetRainfall`. -/
def resetRainfall (s : Status) (xRequestTime : TimeStruct) (pRcvd : List UInt8) :
    Ret × Status × Exchange :=
  let s := { s with xLastRequestTime := xRequestTime }
  let pRcvdData := pRcvd.take 8
  if accepts 8 pRcvdData then (retOk, setValue 2 1 s, ⟨resetRequest, [(2, pRcvdData)]⟩)
  else (retError, s, ⟨resetRequest, []⟩)

/-- The comparison of the dates, of which neither is set where the conversion fails. -/
def resetDue (xLastUpdateTime xCurrentTime : TimeStruct) (stack : Bool) : Bool :=
  match timeToDate xLastUpdateTime, timeToDate xCurrentTime with
  | some xLastUpdateDate, some xCurrentDate =>
    xLastUpdateDate.year ≠ 1970 && xLastUpdateDate.day ≠ xCurrentDate.day
  | _, _ => stack

/-- The rainfall in hundredths of a millimetre, out of the two bytes of the reply. -/
def rainfall (pRcvdData : List UInt8) : UInt32 :=
  (((pRcvdData.getD 3 0).toUInt32 <<< 8) + (pRcvdData.getD 4 0).toUInt32) * 5

/-- `FTE_FUTURETEK_JCG06_update`. -/
def update (s : Status) (r : Reading) : Ret × Status × List Exchange :=
  let s := { s with xLastRequestTime := r.xRequestTime }
  let pRcvdData := r.pRcvd.take 7
  if accepts 7 pRcvdData then
    let ulValue := rainfall pRcvdData
    let stored := ⟨rainfallRequest, [(0, pRcvdData), (1, pRcvdData)]⟩
    let s := setValue 1 ulValue (setValue 0 ulValue s)
    if resetDue s.xLastUpdateTime r.xCurrentTime r.stack then
      -- what the reset returns is not looked at
      let (_, s, e) := resetRainfall s r.xResetTime r.pResetRcvd
      (retOk, { s with xLastUpdateTime := r.xUpdateTime }, [stored, e])
    else (retOk, { s with xLastUpdateTime := r.xUpdateTime }, [stored])
  else (retError, s, [⟨rainfallRequest, []⟩])

/-- A reset on this update is acknowledged if it is sent. -/
def Reading.acknowledges (r : Reading) : Bool := accepts 8 (r.pResetRcvd.take 8)

end Requests

section Days

/-- The calendar date as the number of days from the first of January 1970. -/
def dayOf (t : TimeStruct) : Nat := t.seconds.toNat / secsInDay

/-- A successful update: its date, whether a reset on it could succeed, and whether one was
acknowledged. -/
structure Update where
  day : Nat
  could : Bool
  reset : Bool
deriving DecidableEq

/-- The gauge with its successful updates, the latest last. -/
structure Gauge where
  status : Status
  updates : List Update

/-- The reset of the exchanges is acknowledged. -/
def acknowledged (exchanges : List Exchange) : Bool :=
  exchanges.any fun e => e.pSendData = resetRequest && e.stores ≠ []

def next (g : Gauge) (r : Reading) : Gauge :=
  let u := update g.status r
  ⟨u.2.1, if u.1 = retOk then
    g.updates ++ [⟨dayOf r.xCurrentTime, r.acknowledges, acknowledged u.2.2⟩] else g.updates⟩

def step (g : Gauge) (r : Reading) : Option Gauge := some (next g r)

def Reading.times (r : Reading) : List TimeStruct :=
  [r.xRequestTime, r.xCurrentTime, r.xResetTime, r.xUpdateTime]

/-- The clock does not go back, and is past 1970. -/
structure Clocked (rs : List Reading) : Prop where
  monotone : (rs.flatMap Reading.times).Pairwise fun t u => t.msecs ≤ u.msecs
  past : ∀ r ∈ rs, ∀ t ∈ r.times, secsInYear ≤ t.seconds.toNat

/-- Behind a successful update of an earlier date, from the second of a later date on with one between
them on which a reset could succeed, a reset has been acknowledged. -/
def ResetDaily (updates : List Update) : Prop :=
  ∀ i j m k (hk : k < updates.length) (hi : i < j) (hj : j < k) (hm : j ≤ m ∧ m ≤ k),
    updates[i].day < updates[j].day → updates[j].day = updates[k].day → updates[m].could →
      ∃ n, ∃ hn : i < n ∧ n ≤ k, updates[n].reset

/-- A successful update on another date than the last one finds another day of the month in the stamp
of that one, and its reset is acknowledged. -/
def Renews (g : Gauge) (r : Reading) : Prop :=
  accepts 7 (r.pRcvd.take 7) = true → ∀ u ∈ g.updates.getLast?, u.day ≠ dayOf r.xCurrentTime →
    (∃ xLastUpdateDate xCurrentDate, timeToDate g.status.xLastUpdateTime = some xLastUpdateDate ∧
      timeToDate r.xCurrentTime = some xCurrentDate ∧ xLastUpdateDate.day ≠ xCurrentDate.day) ∧
    r.acknowledges

end Days

section Renewal

variable {s : Status} {r : Reading} {g : Gauge}

theorem year_of_past {t : TimeStruct} {date : DateStruct} (ht : secsInYear ≤ t.seconds.toNat)
    (h : timeToDate t = some date) : date.year ≠ 1970 := by
  intro hyear
  have hwithin := (timeToDate_dated h).within.2
  rw [hyear] at hwithin
  have hfirst : beforeYear (1970 - clkFirstYear + 1) = secsInYear := by decide
  omega

theorem update_of_refused (h : accepts 7 (r.pRcvd.take 7) = false) : update s r =
    (retError, { s with xLastRequestTime := r.xRequestTime }, [⟨rainfallRequest, []⟩]) := by
  simp only [update, h, Bool.false_eq_true, if_false]

theorem update_of_accepted (h : accepts 7 (r.pRcvd.take 7) = true) :
    (update s r).1 = retOk ∧ (update s r).2.1.xLastUpdateTime = r.xUpdateTime := by
  simp only [update, h, if_true]
  split
  · exact ⟨rfl, rfl⟩
  · exact ⟨rfl, rfl⟩

/-- A reset that is due and would be acknowledged is. -/
theorem acknowledged_update (h : accepts 7 (r.pRcvd.take 7) = true)
    (hdue : resetDue s.xLastUpdateTime r.xCurrentTime r.stack = true) (hack : r.acknowledges = true) :
    acknowledged (update s r).2.2 = true := by
  rw [Reading.acknowledges] at hack
  simp only [update, h, if_true, resetRainfall, hack, setValue, hdue]
  simp [acknowledged]

/-- The stamp is past 1970 from the first successful update on, and every one that follows another on
another date has an acknowledged reset. -/
structure Gauge.Inv (g : Gauge) : Prop where
  past : g.updates ≠ [] → secsInYear ≤ g.status.xLastUpdateTime.seconds.toNat
  renewed : ∀ i (hi : i + 1 < g.updates.length),
    g.updates[i].day ≠ g.updates[i + 1].day → g.updates[i + 1].reset

theorem resetDue_of_renews (hi : g.Inv) (hreply : accepts 7 (r.pRcvd.take 7) = true) {u : Update}
    (hu : u ∈ g.updates.getLast?) (hday : u.day ≠ dayOf r.xCurrentTime) (ha : Renews g r) :
    resetDue g.status.xLastUpdateTime r.xCurrentTime r.stack = true ∧ r.acknowledges = true := by
  obtain ⟨⟨last, current, hlast, hcurrent, hne⟩, hack⟩ := ha hreply u hu hday
  refine ⟨?_, hack⟩
  have hsome : g.updates ≠ [] := fun hnil => by
    rw [hnil] at hu
    cases hu
  have hyear := year_of_past (hi.past hsome) hlast
  simp only [resetDue, hlast, hcurrent, ne_eq, hyear, hne, not_false_eq_true, decide_true,
    Bool.and_self]

theorem inv_step (hi : g.Inv) (hpast : ∀ t ∈ r.times, secsInYear ≤ t.seconds.toNat)
    (ha : Renews g r) : (next g r).Inv := by
  rw [next]
  cases hreply : accepts 7 (r.pRcvd.take 7) with
  | false =>
    rw [update_of_refused hreply, if_neg retError_ne]
    exact ⟨hi.past, hi.renewed⟩
  | true =>
    obtain ⟨hret, hstamp⟩ := @update_of_accepted g.status r hreply
    rw [if_pos hret]
    constructor
    · intro _
      rw [hstamp]
      exact hpast _ (by simp [Reading.times])
    · intro i hlt hday
      rw [List.length_append, List.length_singleton] at hlt
      obtain hin | hlast := Nat.lt_or_eq_of_le (Nat.le_of_lt_succ hlt)
      · simp only [List.getElem_append_left hin, List.getElem_append_left (Nat.lt_of_succ_lt hin)]
          at hday ⊢
        exact hi.renewed i hin hday
      · -- the update that was just logged
        have hprev : i < g.updates.length := by omega
        simp only [List.getElem_append_left hprev, hlast, List.getElem_concat_length] at hday ⊢
        have hu : g.updates[i] ∈ g.updates.getLast? := by
          rw [List.getLast?_eq_getElem?, ← hlast, Nat.add_sub_cancel, List.getElem?_eq_getElem hprev]
          rfl
        obtain ⟨hdue, hack⟩ := resetDue_of_renews hi hreply hu hday ha
        exact acknowledged_update hreply hdue hack

/-- Between updates of different dates lies an acknowledged reset. -/
theorem Gauge.Inv.between (hi : g.Inv) {i k : Nat} (hik : i < k) (hk : k < g.updates.length)
    (hday : g.updates[i].day ≠ g.updates[k].day) :
    ∃ n, ∃ hn : i < n ∧ n ≤ k, g.updates[n].reset := by
  induction k, hik using Nat.le_induction with
  | base => exact ⟨i + 1, ⟨Nat.lt_succ_self i, Nat.le_refl _⟩, hi.renewed i hk hday⟩
  | succ k hik ih =>
    have hprev : k < g.updates.length := Nat.lt_of_succ_lt hk
    by_cases hsame : g.updates[k].day = g.updates[k + 1].day
    · obtain ⟨n, hn, hreset⟩ := ih hprev (by rw [hsame]; exact hday)
      exact ⟨n, ⟨hn.1, Nat.le_succ_of_le hn.2⟩, hreset⟩
    · exact ⟨k + 1, ⟨Nat.lt_succ_of_lt hik, Nat.le_refl _⟩, hi.renewed k hk hsame⟩

theorem Gauge.Inv.resetDaily (hi : g.Inv) : ResetDaily g.updates := by
  intro i j m k hk hij hjk hm hearlier hsame hcould
  exact hi.between (Nat.lt_trans hij hjk) hk (by omega)

/-- Along a run whose successful updates on another date than the successful one before all see the
new date in the day of the month and have their reset acknowledged, the rainfall is reset daily. -/
theorem resetDaily_of_renews {rs : List Reading} (hclock : Clocked rs)
    (h : ∀ g r, Takes step ⟨s, []⟩ rs g r → Renews g r) (hv : Visits step ⟨s, []⟩ rs g) :
    ResetDaily g.updates := by
  apply Gauge.Inv.resetDaily
  apply inv_of_takes (G := fun g r => r ∈ rs ∧ Renews g r) ?_ ?_ ?_ hv
  · exact ⟨fun hne => absurd rfl hne, fun i hi => absurd hi (Nat.not_lt_zero _)⟩
  · rintro g r _ hi ⟨hr, ha⟩ hstep
    obtain rfl := Option.some.inj hstep
    exact inv_step hi (hclock.past r hr) ha
  · exact fun g r ht => ⟨ht.mem, h g r ht⟩

def started : Status := ⟨fun _ => ⟨.mm, true, 0, 0⟩, ⟨947073598, 0⟩, ⟨947073598, 0⟩⟩

/-- Updates at noon of the fifth and twice of the sixth of January 2000, of which the first on the sixth
fails. -/
def renewed : List Reading :=
  [⟨⟨947073600, 0⟩, [0x02, 0x04, 0x02, 0x00, 0x01, 0x3C, 0xF0], ⟨947073600, 0⟩, false, ⟨947073600, 0⟩,
      [], ⟨947073600, 0⟩⟩,
    ⟨⟨947159998, 0⟩, [], ⟨947159998, 0⟩, false, ⟨947159998, 0⟩, [], ⟨947159998, 0⟩⟩,
    ⟨⟨947160000, 0⟩, [0x02, 0x04, 0x02, 0x00, 0x01, 0x3C, 0xF0], ⟨947160000, 0⟩, false,
      ⟨947160000, 0⟩, [0x02, 0x10, 0x00, 0x00, 0x00, 0x01, 0x01, 0xFA], ⟨947160000, 0⟩⟩]

theorem renewed_resetDaily : ∃ g, Visits step ⟨started, []⟩ renewed g ∧
    g.updates = [⟨10961, false, false⟩, ⟨10962, true, true⟩] ∧ ResetDaily g.updates := by
  have hclock : Clocked renewed := ⟨by decide +kernel, by decide +kernel⟩
  have hv : Visits step ⟨started, []⟩ renewed (renewed.foldl next ⟨started, []⟩) :=
    ⟨renewed, List.prefix_rfl, rfl⟩
  refine ⟨_, hv, by decide +kernel, resetDaily_of_renews hclock (takes_of_along ?_) hv⟩
  refine ⟨fun _ _ hu => (nomatch hu), fun g hg => ?_⟩
  obtain rfl := Option.some.inj hg
  -- the failed update is free
  refine ⟨fun hfailed => absurd hfailed (by decide), fun g hg => ?_⟩
  obtain rfl := Option.some.inj hg
  refine ⟨fun _ u _ _ => ⟨⟨⟨2000, 1, 5, 12, 0, 0, 0⟩, ⟨2000, 1, 6, 12, 0, 0, 0⟩, ?_⟩, ?_⟩,
    fun _ _ => trivial⟩
  · decide +kernel
  · decide +kernel

/-- Updates at noon of the fifth and twice of the sixth of January 2000; the reset is lost on the
first of that day. -/
def lostReset : List Reading :=
  [⟨⟨947073600, 0⟩, [0x02, 0x04, 0x02, 0x00, 0x01, 0x3C, 0xF0], ⟨947073600, 0⟩, false, ⟨947073600, 0⟩,
      [], ⟨947073600, 0⟩⟩,
    ⟨⟨947160000, 0⟩, [0x02, 0x04, 0x02, 0x00, 0x01, 0x3C, 0xF0], ⟨947160000, 0⟩, false,
      ⟨947160000, 0⟩, [], ⟨947160000, 0⟩⟩,
    ⟨⟨947160002, 0⟩, [0x02, 0x04, 0x02, 0x00, 0x01, 0x3C, 0xF0], ⟨947160002, 0⟩, false,
      ⟨947160002, 0⟩, [0x02, 0x10, 0x00, 0x00, 0x00, 0x01, 0x01, 0xFA], ⟨947160002, 0⟩⟩]

theorem clocked_lostReset : Clocked lostReset := by
  constructor
  · decide +kernel
  · decide +kernel

theorem updates_lostReset : (lostReset.foldl next ⟨started, []⟩).updates =
    [⟨10961, false, false⟩, ⟨10962, false, false⟩, ⟨10962, true, false⟩] := by
  decide +kernel

/-- The reset lost on the sixth is not tried again. -/
theorem lostReset_not_resetDaily :
    ¬ ∀ (s : Status) (rs : List Reading) (g : Gauge), Clocked rs → Visits step ⟨s, []⟩ rs g →
      ResetDaily g.updates := by
  intro h
  have hrun : exec step lostReset ⟨started, []⟩ = some (lostReset.foldl next ⟨started, []⟩) := rfl
  have hdaily := h started lostReset _ clocked_lostReset ⟨lostReset, List.prefix_rfl, hrun⟩
  rw [updates_lostReset] at hdaily
  obtain ⟨n, ⟨hlow, hhigh⟩, hreset⟩ := hdaily 0 1 2 2 (by decide) (by decide) (by decide) (by decide)
    (by decide) rfl rfl
  obtain rfl | rfl : n = 1 ∨ n = 2 := by omega
  · cases hreset
  · cases hreset

end Renewal

end Jcg06

end EdgeNode.Obj
