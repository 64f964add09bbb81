import EdgeNode.Lib.Runs
import EdgeNode.Lib.Sweep
import EdgeNode.Obj.SiouxFrame
import Mathlib.Data.List.FinRange
import Mathlib.Logic.Function.Basic

/-! The zones of the SIOUX control unit: the passes of its task and what its values report. -/

namespace EdgeNode.Obj.Cias

open Runs

section Unit

structure Zone where
  bInOperation : Bool
  ulAlarm : UInt32
  ulValue : UInt32

/-- `FTE_CIAS_SIOUX_CU`, with the values of its alarms. -/
structure SiouxCu where
  ulSensorCount : UInt32
  ulDistance : UInt32
  pAlarms : Fin 8 → UInt32
  pZones : Fin 20 → Zone

def defaultDistance : UInt32 := 50

/-- The sensor at the distance that a zone reports. -/
def SiouxCu.sensorNumber (cu : SiouxCu) (ulValue : UInt32) : UInt32 :=
  let ulDistance := if cu.ulDistance < defaultDistance then defaultDistance else cu.ulDistance
  if ulValue ≠ 0 then
    let ulSensor := (ulValue + (ulDistance / 2 - 1)) / ulDistance + 1
    if ulSensor > cu.ulSensorCount then cu.ulSensorCount else ulSensor
  else 0

/-- The value of two zones, their sensors and alarms by turns. -/
def packed (ulSensor1 ulAlarm1 ulSensor2 ulAlarm2 : UInt32) : UInt32 :=
  (ulSensor1 &&& 0xFF : UInt32) ||| ((ulAlarm1 &&& 0xFF : UInt32) <<< 8) |||
    ((ulSensor2 &&& 0xFF : UInt32) <<< 16) ||| ((ulAlarm2 &&& 0xFF : UInt32) <<< 24)

/-- `FTE_CIAS_SIOUX_CU_get`; nothing is set for an index behind the zones. -/
def SiouxCu.get (cu : SiouxCu) (ulIndex : Nat) : Option UInt32 :=
  if h : ulIndex < 8 then some (cu.pAlarms ⟨ulIndex, h⟩)
  else if h : ulIndex < 8 + 20 / 2 then
    let zone1 := cu.pZones ⟨(ulIndex - 8) * 2, by omega⟩
    let zone2 := cu.pZones ⟨(ulIndex - 8) * 2 + 1, by omega⟩
    let ulSensor1 := cu.sensorNumber zone1.ulValue
    let ulSensor2 := cu.sensorNumber zone2.ulValue
    some (packed ulSensor1 zone1.ulAlarm ulSensor2 zone2.ulAlarm)
  else none

/-- The bits of a zone in the words become those of the status byte. -/
def mark (ulAlarms : Fin 8 → UInt32) (nZone : Fin 20) (status : UInt8) : Fin 8 → UInt32 := fun i =>
  if (status.toUInt32 >>> i.val.toUInt32) &&& 0x01 ≠ 0 then
    ulAlarms i ||| ((1 : UInt32) <<< nZone.val.toUInt32)
  else ulAlarms i &&& ~~~((1 : UInt32) <<< nZone.val.toUInt32)

def clear (ulAlarms : Fin 8 → UInt32) (nZone : Fin 20) : Fin 8 → UInt32 := fun i =>
  ulAlarms i &&& ~~~((1 : UInt32) <<< nZone.val.toUInt32)

def frameStatus (pRespFrame : List UInt8) : UInt8 := pRespFrame.getD 3 0

def frameAlarm (pRespFrame : List UInt8) : UInt32 := (frameStatus pRespFrame &&& 0xBF).toUInt32

def frameValue (pRespFrame : List UInt8) : UInt32 :=
  ((pRespFrame.getD 5 0).toUInt32 <<< 8) ||| (pRespFrame.getD 6 0).toUInt32

/-- The turn of the loop for a zone, with the bytes received for it. A reply that overruns
`pRespFrame` counts as one that is rejected. -/
def visit (pRecvBuff : Fin 20 → List UInt8) (s : (Fin 8 → UInt32) × (Fin 20 → Zone))
    (nZone : Fin 20) : (Fin 8 → UInt32) × (Fin 20 → Zone) :=
  let (ulAlarms, pZones) := s
  let zone := pZones nZone
  if zone.bInOperation then
    match accept (pRecvBuff nZone) with
    | some pRespFrame =>
      (mark ulAlarms nZone (frameStatus pRespFrame), Function.update pZones nZone
        { zone with ulValue := frameValue pRespFrame, ulAlarm := frameAlarm pRespFrame })
    | none => s
  else (clear ulAlarms nZone, Function.update pZones nZone { zone with ulValue := 0 })

/-- A pass of the loop of `FTE_CIAS_SIOUX_CU_task`. -/
def SiouxCu.pass (cu : SiouxCu) (pRecvBuff : Fin 20 → List UInt8) : SiouxCu :=
  let s := (List.finRange 20).foldl (visit pRecvBuff) (cu.pAlarms, cu.pZones)
  { cu with pAlarms := s.1, pZones := s.2 }

def SiouxCu.activate (cu : SiouxCu) (bInOperation : Fin 20 → Bool) : SiouxCu :=
  { cu with pZones := fun z => { cu.pZones z with bInOperation := bInOperation z } }

/-- What is reported of a zone: its sensor and its alarm byte. -/
def SiouxCu.report (cu : SiouxCu) (z : Fin 20) : Option (BitVec 8 × BitVec 8) :=
  (cu.get (8 + z.val / 2)).map fun ulValue =>
    let base := 16 * (z.val % 2)
    (ulValue.toBitVec.extractLsb' base 8, ulValue.toBitVec.extractLsb' (base + 8) 8)

end Unit

section Polling

/-- One pass: the zones in operation, and what is received for each. -/
structure Polled where
  bInOperation : Fin 20 → Bool
  pRecvBuff : Fin 20 → List UInt8

/-- The last reply of a zone that was accepted, once a pass is over. -/
def Polled.last (p : Polled) (z : Fin 20) (last : Option (List UInt8)) : Option (List UInt8) :=
  if p.bInOperation z then (accept (p.pRecvBuff z)).or last else last

/-- Whether a zone was out of operation since then. -/
def Polled.idle (p : Polled) (z : Fin 20) (idle : Bool) : Bool :=
  if p.bInOperation z then idle && (accept (p.pRecvBuff z)).isNone else true

/-- The unit, with the last accepted reply of each zone and whether it was out of operation since. -/
structure Polling where
  cu : SiouxCu
  last : Fin 20 → Option (List UInt8)
  idle : Fin 20 → Bool

def poll (u : Polling) (p : Polled) : Option Polling :=
  some
    { cu := (u.cu.activate p.bInOperation).pass p.pRecvBuff
      last := fun z => p.last z (u.last z)
      idle := fun z => p.idle z (u.idle z) }

/-- The unit as it is once its configuration is loaded. -/
def loaded (ulSensorCount ulDistance : UInt32) (bInOperation : Fin 20 → Bool) : Polling :=
  ⟨⟨ulSensorCount, ulDistance, fun _ => 0, fun z => ⟨bInOperation z, 0, 0⟩⟩, fun _ => none,
    fun _ => false⟩

def lastStatus (last : Option (List UInt8)) : UInt8 := last.elim 0 frameStatus

def lastAlarm (last : Option (List UInt8)) : UInt32 := last.elim 0 frameAlarm

def lastValue (last : Option (List UInt8)) : UInt32 := last.elim 0 frameValue

/-- The words and the reports show the last accepted reply of every zone in operation, and nothing of
the others. -/
structure Shows (u : Polling) : Prop where
  words : ∀ i z, (u.cu.pAlarms i).toBitVec.getLsbD z.val =
    ((u.cu.pZones z).bInOperation && (lastStatus (u.last z)).toBitVec.getLsbD i.val)
  reports : ∀ z, ∃ sensor alarm, u.cu.report z = some (sensor, alarm) ∧
    if (u.cu.pZones z).bInOperation then
      sensor.toNat = (u.cu.sensorNumber (lastValue (u.last z))).toNat ∧
        alarm.toNat = (lastAlarm (u.last z)).toNat
    else sensor = 0 ∧ alarm = 0

/-- A zone out of operation had no alarm in its last accepted reply, the sensor of one in operation is
a byte, and one that was out of operation since its last accepted reply had none of both in it. -/
def Fits (cu : SiouxCu) (bInOperation : Bool) (last : Option (List UInt8)) (idle : Bool) : Prop :=
  if bInOperation then
    if idle then lastStatus last = 0 ∧ cu.sensorNumber (lastValue last) = 0
    else (cu.sensorNumber (lastValue last)).toNat < 2 ^ 8
  else lastAlarm last = 0

def Fitting (u : Polling) (p : Polled) : Prop :=
  ∀ z, Fits u.cu (p.bInOperation z) (p.last z (u.last z)) (p.idle z (u.idle z))

end Polling

section Turn

/-- A zone with its bits in the words. -/
abbrev View := (Fin 8 → Bool) × Zone

def view (s : (Fin 8 → UInt32) × (Fin 20 → Zone)) (z : Fin 20) : View :=
  (fun i => (s.1 i).toBitVec.getLsbD z.val, s.2 z)

/-- What a turn makes of its zone. -/
def turn (pRecvBuff : Fin 20 → List UInt8) (z : Fin 20) (v : View) : View :=
  if v.2.bInOperation then
    match accept (pRecvBuff z) with
    | some pRespFrame => (fun i => (frameStatus pRespFrame).toBitVec.getLsbD i.val,
        { v.2 with ulValue := frameValue pRespFrame, ulAlarm := frameAlarm pRespFrame })
    | none => v
  else (fun _ => false, { v.2 with ulValue := 0 })

theorem bit_toBitVec (z : Fin 20) :
    ((1 : UInt32) <<< z.val.toUInt32).toBitVec = BitVec.twoPow 32 z.val := by
  revert z
  decide

theorem status_bit (status : UInt8) (i : Fin 8) :
    (status.toUInt32 >>> i.val.toUInt32) &&& 0x01 ≠ 0 ↔ status.toBitVec.getLsbD i.val = true := by
  have h : ∀ b : BitVec 8, ∀ i : Fin 8, ((UInt8.ofBitVec b).toUInt32 >>> i.val.toUInt32) &&& 0x01 ≠ 0 ↔
      b.getLsbD i.val = true := by decide +kernel
  exact h status.toBitVec i

theorem or_bit (w : UInt32) (z j : Fin 20) :
    (w ||| ((1 : UInt32) <<< z.val.toUInt32)).toBitVec.getLsbD j.val =
      (w.toBitVec.getLsbD j.val || decide (z = j)) := by
  have hz : z.val < 32 := by omega
  have hj : j.val < 32 := by omega
  rw [UInt32.toBitVec_or, bit_toBitVec, BitVec.getLsbD_or, BitVec.getLsbD_twoPow]
  simp [hz, hj, Fin.ext_iff]

theorem and_not_bit (w : UInt32) (z j : Fin 20) :
    (w &&& ~~~((1 : UInt32) <<< z.val.toUInt32)).toBitVec.getLsbD j.val =
      (w.toBitVec.getLsbD j.val && !decide (z = j)) := by
  have hz : z.val < 32 := by omega
  have hj : j.val < 32 := by omega
  rw [UInt32.toBitVec_and, UInt32.toBitVec_not, bit_toBitVec, BitVec.getLsbD_and, BitVec.getLsbD_not,
    BitVec.getLsbD_twoPow]
  simp [hz, hj, Fin.ext_iff]

theorem mark_own (w : Fin 8 → UInt32) (z : Fin 20) (status : UInt8) (i : Fin 8) :
    (mark w z status i).toBitVec.getLsbD z.val = status.toBitVec.getLsbD i.val := by
  unfold mark
  split
  next h =>
    rw [or_bit, (status_bit status i).mp h, decide_eq_true rfl, Bool.or_true]
  next h =>
    rw [and_not_bit, decide_eq_true rfl, Bool.not_true, Bool.and_false]
    exact (Bool.eq_false_iff.mpr (mt (status_bit status i).mpr h)).symm

theorem mark_other (w : Fin 8 → UInt32) {z j : Fin 20} (hne : z ≠ j) (status : UInt8) (i : Fin 8) :
    (mark w z status i).toBitVec.getLsbD j.val = (w i).toBitVec.getLsbD j.val := by
  unfold mark
  split
  next => rw [or_bit, decide_eq_false hne, Bool.or_false]
  next => rw [and_not_bit, decide_eq_false hne, Bool.not_false, Bool.and_true]

theorem view_visit_own (pRecvBuff : Fin 20 → List UInt8) (s : (Fin 8 → UInt32) × (Fin 20 → Zone))
    (z : Fin 20) : view (visit pRecvBuff s z) z = turn pRecvBuff z (view s z) := by
  unfold visit turn
  dsimp only
  by_cases hactive : (s.2 z).bInOperation = true
  · have hview : (view s z).2.bInOperation = true := hactive
    rw [if_pos hactive, if_pos hview]
    cases accept (pRecvBuff z) with
    | none => rfl
    | some pRespFrame =>
      apply Prod.ext
      · funext i
        exact mark_own s.1 z (frameStatus pRespFrame) i
      · exact Function.update_self z _ s.2
  · have hview : ¬ (view s z).2.bInOperation = true := hactive
    rw [if_neg hactive, if_neg hview]
    apply Prod.ext
    · funext i
      show (clear s.1 z i).toBitVec.getLsbD z.val = false
      rw [clear, and_not_bit, decide_eq_true rfl, Bool.not_true, Bool.and_false]
    · exact Function.update_self z _ s.2

theorem view_visit_other (pRecvBuff : Fin 20 → List UInt8)
    (s : (Fin 8 → UInt32) × (Fin 20 → Zone)) (z j : Fin 20) (hne : z ≠ j) :
    view (visit pRecvBuff s z) j = view s j := by
  unfold visit
  dsimp only
  by_cases hactive : (s.2 z).bInOperation = true
  · rw [if_pos hactive]
    cases accept (pRecvBuff z) with
    | none => rfl
    | some pRespFrame =>
      apply Prod.ext
      · funext i
        exact mark_other s.1 hne (frameStatus pRespFrame) i
      · exact Function.update_of_ne hne.symm _ s.2
  · rw [if_neg hactive]
    apply Prod.ext
    · funext i
      show (clear s.1 z i).toBitVec.getLsbD j.val = (s.1 i).toBitVec.getLsbD j.val
      rw [clear, and_not_bit, decide_eq_false hne, Bool.not_false, Bool.and_true]
    · exact Function.update_of_ne hne.symm _ s.2

/-- A pass makes of every zone what its turn does. -/
theorem view_pass (cu : SiouxCu) (pRecvBuff : Fin 20 → List UInt8) (z : Fin 20) :
    view ((cu.pass pRecvBuff).pAlarms, (cu.pass pRecvBuff).pZones) z =
      turn pRecvBuff z (view (cu.pAlarms, cu.pZones) z) :=
  Sweep.view_of_mem (view_visit_own pRecvBuff) (view_visit_other pRecvBuff)
    (List.nodup_finRange 20) (List.mem_finRange z) (cu.pAlarms, cu.pZones)

end Turn

section Report

theorem low_bit (x : BitVec 32) (i : Nat) :
    (x &&& 0xFF#32).getLsbD i = (decide (i < 8) && x.getLsbD i) := by
  have hmask : ∀ i : Fin 32, (0xFF#32).getLsbD i.val = decide (i.val < 8) := by decide
  rw [BitVec.getLsbD_and, Bool.and_comm]
  by_cases hi : i < 32
  · rw [hmask ⟨i, hi⟩]
  · rw [BitVec.getLsbD_of_ge x i (Nat.le_of_not_lt hi), Bool.and_false, Bool.and_false]

theorem packed_bit (a b c d : UInt32) {j : Nat} (hj : j < 32) :
    (packed a b c d).toBitVec.getLsbD j =
      if j < 8 then a.toBitVec.getLsbD j
      else if j < 16 then b.toBitVec.getLsbD (j - 8)
      else if j < 24 then c.toBitVec.getLsbD (j - 16)
      else d.toBitVec.getLsbD (j - 24) := by
  have hbits : (packed a b c d).toBitVec =
      (a.toBitVec &&& 0xFF#32) ||| ((b.toBitVec &&& 0xFF#32) <<< 8) |||
        ((c.toBitVec &&& 0xFF#32) <<< 16) ||| ((d.toBitVec &&& 0xFF#32) <<< 24) := rfl
  rw [hbits]
  simp only [BitVec.getLsbD_or, BitVec.getLsbD_shiftLeft, low_bit, decide_eq_true hj]
  by_cases h8 : j < 8
  · simp [h8, show j < 16 by omega, show j < 24 by omega]
  · by_cases h16 : j < 16
    · simp [h8, h16, show j < 24 by omega, show j - 8 < 8 by omega]
    · by_cases h24 : j < 24
      · simp [h8, h16, h24, show ¬ j - 8 < 8 by omega, show j - 16 < 8 by omega]
      · simp [h8, h16, h24, show ¬ j - 8 < 8 by omega, show ¬ j - 16 < 8 by omega,
          show j - 24 < 8 by omega]

/-- A byte of the value whose bits are those of a word is the low byte of that word. -/
theorem packed_byte {a b c d w : UInt32} {base : Nat}
    (h : ∀ i, i < 8 → (packed a b c d).toBitVec.getLsbD (base + i) = w.toBitVec.getLsbD i) :
    (packed a b c d).toBitVec.extractLsb' base 8 = w.toBitVec.setWidth 8 := by
  apply BitVec.eq_of_getLsbD_eq
  intro i hi
  rw [BitVec.getLsbD_extractLsb', BitVec.getLsbD_setWidth, h i hi]

theorem packed_bytes (a b c d : UInt32) :
    (packed a b c d).toBitVec.extractLsb' 0 8 = a.toBitVec.setWidth 8 ∧
      (packed a b c d).toBitVec.extractLsb' 8 8 = b.toBitVec.setWidth 8 ∧
      (packed a b c d).toBitVec.extractLsb' 16 8 = c.toBitVec.setWidth 8 ∧
      (packed a b c d).toBitVec.extractLsb' 24 8 = d.toBitVec.setWidth 8 := by
  refine ⟨?_, ?_, ?_, ?_⟩
  · apply packed_byte
    intro i hi
    rw [packed_bit a b c d (by omega), if_pos (by omega), Nat.zero_add]
  · apply packed_byte
    intro i hi
    rw [packed_bit a b c d (by omega), if_neg (by omega), if_pos (by omega), Nat.add_sub_cancel_left]
  · apply packed_byte
    intro i hi
    rw [packed_bit a b c d (by omega), if_neg (by omega), if_neg (by omega), if_pos (by omega),
      Nat.add_sub_cancel_left]
  · apply packed_byte
    intro i hi
    rw [packed_bit a b c d (by omega), if_neg (by omega), if_neg (by omega), if_neg (by omega),
      Nat.add_sub_cancel_left]

/-- The bytes that are reported of a zone. -/
theorem report_eq (cu : SiouxCu) (z : Fin 20) : cu.report z =
    some ((cu.sensorNumber (cu.pZones z).ulValue).toBitVec.setWidth 8,
      (cu.pZones z).ulAlarm.toBitVec.setWidth 8) := by
  have halarm : ¬ 8 + z.val / 2 < 8 := by omega
  have hzone : 8 + z.val / 2 < 8 + 20 / 2 := by omega
  unfold SiouxCu.report SiouxCu.get
  rw [dif_neg halarm, dif_pos hzone]
  obtain hz | hz := Nat.mod_two_eq_zero_or_one z.val
  -- The first zone of a pair has the low half of the value.
  · have hself : (8 + z.val / 2 - 8) * 2 = z.val := by omega
    simp only [hz, hself, Option.map_some, Nat.mul_zero, Nat.zero_add]
    rw [(packed_bytes _ _ _ _).1, (packed_bytes _ _ _ _).2.1]
  · have hself : (8 + z.val / 2 - 8) * 2 + 1 = z.val := by omega
    simp only [hz, hself, Option.map_some, Nat.mul_one]
    rw [(packed_bytes _ _ _ _).2.2.1, (packed_bytes _ _ _ _).2.2.2]

end Report

section Runs

/-- The zone has the alarm of its last accepted reply, with the value and the bits of it or, where it
was out of operation since, with none. -/
structure Tracks (v : View) (last : Option (List UInt8)) (idle : Bool) : Prop where
  alarm : v.2.ulAlarm = lastAlarm last
  kept : idle = false → v.2.ulValue = lastValue last ∧
    ∀ i, v.1 i = (lastStatus last).toBitVec.getLsbD i.val
  gone : idle = true → v.2.ulValue = 0 ∧ ∀ i, v.1 i = false

variable {cu : SiouxCu} {v : View} {last : Option (List UInt8)} {idle : Bool} {z : Fin 20}

theorem turn_tracks (h : Tracks v last idle) (p : Polled) (hactive : v.2.bInOperation = p.bInOperation z) :
    Tracks (turn p.pRecvBuff z v) (p.last z last) (p.idle z idle) := by
  unfold turn Polled.last Polled.idle
  rw [hactive]
  cases p.bInOperation z with
  | false => exact ⟨h.alarm, fun hidle => Bool.noConfusion hidle, fun _ => ⟨rfl, fun _ => rfl⟩⟩
  | true =>
    rw [if_pos rfl, if_pos rfl, if_pos rfl]
    cases accept (p.pRecvBuff z) with
    | none =>
      rw [Option.isNone_none, Bool.and_true]
      exact h
    | some pRespFrame =>
      rw [Option.isNone_some, Bool.and_false]
      exact ⟨rfl, fun _ => ⟨rfl, fun _ => rfl⟩, fun hidle => Bool.noConfusion hidle⟩

theorem turn_bInOperation (pRecvBuff : Fin 20 → List UInt8) (z : Fin 20) (v : View) :
    (turn pRecvBuff z v).2.bInOperation = v.2.bInOperation := by
  unfold turn
  split
  next =>
    split
    next => rfl
    next => rfl
  next => rfl

/-- What the words and the report show of a zone. -/
structure ZoneShows (cu : SiouxCu) (v : View) (last : Option (List UInt8)) : Prop where
  words : ∀ i, v.1 i = (v.2.bInOperation && (lastStatus last).toBitVec.getLsbD i.val)
  report : if v.2.bInOperation then
      ((cu.sensorNumber v.2.ulValue).toBitVec.setWidth 8).toNat =
          (cu.sensorNumber (lastValue last)).toNat ∧
        (v.2.ulAlarm.toBitVec.setWidth 8).toNat = (lastAlarm last).toNat
    else (cu.sensorNumber v.2.ulValue).toBitVec.setWidth 8 = 0 ∧ v.2.ulAlarm.toBitVec.setWidth 8 = 0

theorem lastAlarm_setWidth (last : Option (List UInt8)) :
    ((lastAlarm last).toBitVec.setWidth 8).toNat = (lastAlarm last).toNat := by
  rw [BitVec.toNat_setWidth]
  apply Nat.mod_eq_of_lt
  cases last with
  | none => exact Nat.two_pow_pos 8
  | some pRespFrame => exact (frameStatus pRespFrame &&& 0xBF).toNat_lt

theorem sensorNumber_zero (cu : SiouxCu) : cu.sensorNumber 0 = 0 := rfl

theorem status_eq_zero (status : UInt8) :
    status = 0 ↔ ∀ i : Fin 8, false = status.toBitVec.getLsbD i.val := by
  constructor
  · rintro rfl i
    exact BitVec.getLsbD_zero.symm
  · intro h
    apply UInt8.toBitVec_inj.mp
    apply BitVec.eq_of_getLsbD_eq
    intro i hi
    exact (h ⟨i, hi⟩).symm.trans BitVec.getLsbD_zero.symm

/-- A stopped zone shows a reply without an alarm value. -/
theorem zoneShows_stopped_iff (h : Tracks v last true) (hstopped : v.2.bInOperation = false) :
    ZoneShows cu v last ↔ lastAlarm last = 0 := by
  obtain ⟨hvalue, hbits⟩ := h.gone rfl
  constructor
  · intro hs
    have hreport := hs.report
    rw [hstopped, if_neg Bool.false_ne_true, h.alarm] at hreport
    have hzero := congrArg BitVec.toNat hreport.2
    rw [lastAlarm_setWidth] at hzero
    exact UInt32.toNat_inj.mp hzero
  · intro hzero
    constructor
    · intro i
      rw [hstopped, hbits i, Bool.false_and]
    · rw [hstopped, if_neg Bool.false_ne_true, hvalue, h.alarm, hzero]
      exact ⟨rfl, rfl⟩

/-- A zone in operation shows the status bits and the sensor number as a byte. -/
theorem zoneShows_active_iff (h : Tracks v last idle) (hactive : v.2.bInOperation = true) :
    ZoneShows cu v last ↔ (∀ i, v.1 i = (lastStatus last).toBitVec.getLsbD i.val) ∧
      ((cu.sensorNumber v.2.ulValue).toBitVec.setWidth 8).toNat =
        (cu.sensorNumber (lastValue last)).toNat := by
  constructor
  · intro hs
    have hwords := hs.words
    have hreport := hs.report
    rw [hactive] at hwords hreport
    exact ⟨hwords, hreport.1⟩
  · rintro ⟨hwords, hsensor⟩
    constructor
    · intro i
      rw [hactive, Bool.true_and]
      exact hwords i
    · rw [hactive, if_pos rfl, h.alarm]
      exact ⟨hsensor, lastAlarm_setWidth last⟩

theorem zoneShows_iff (h : Tracks v last idle) (hidle : v.2.bInOperation = false → idle = true) :
    ZoneShows cu v last ↔ Fits cu v.2.bInOperation last idle := by
  unfold Fits
  cases hactive : v.2.bInOperation with
  | false =>
    rw [hidle hactive] at h
    rw [if_neg Bool.false_ne_true]
    exact zoneShows_stopped_iff h hactive
  | true =>
    rw [if_pos rfl, zoneShows_active_iff h hactive]
    cases idle with
    | true =>
      obtain ⟨hvalue, hbits⟩ := h.gone rfl
      rw [if_pos rfl, hvalue, sensorNumber_zero, status_eq_zero]
      simp only [hbits]
      apply and_congr_right
      intro _
      rw [eq_comm, ← UInt32.toNat_inj]
      exact Iff.rfl
    | false =>
      obtain ⟨hvalue, hbits⟩ := h.kept rfl
      rw [if_neg Bool.false_ne_true, hvalue, BitVec.toNat_setWidth, and_iff_right hbits]
      exact Nat.mod_eq_iff_lt (by decide)

def SiouxCu.view (cu : SiouxCu) (z : Fin 20) : View := Cias.view (cu.pAlarms, cu.pZones) z

/-- Every zone follows its replies. -/
def Tracking (u : Polling) : Prop := ∀ z, Tracks (u.cu.view z) (u.last z) (u.idle z)

theorem loaded_tracking (ulSensorCount ulDistance : UInt32) (bInOperation : Fin 20 → Bool) :
    Tracking (loaded ulSensorCount ulDistance bInOperation) := by
  intro z
  exact ⟨rfl, fun _ => ⟨rfl, fun i => BitVec.getLsbD_zero.trans BitVec.getLsbD_zero.symm⟩,
    fun h => Bool.noConfusion h⟩

theorem shows_iff (u : Polling) : Shows u ↔ ∀ z, ZoneShows u.cu (u.cu.view z) (u.last z) := by
  constructor
  · intro h z
    obtain ⟨sensor, alarm, hreport, hshown⟩ := h.reports z
    rw [report_eq] at hreport
    cases hreport
    exact ⟨fun i => h.words i z, hshown⟩
  · intro h
    exact ⟨fun i z => (h z).words i, fun z => ⟨_, _, report_eq u.cu z, (h z).report⟩⟩

theorem loaded_shows (ulSensorCount ulDistance : UInt32) (bInOperation : Fin 20 → Bool) :
    Shows (loaded ulSensorCount ulDistance bInOperation) := by
  apply (shows_iff _).mpr
  intro z
  have hnone : ∀ i : Fin 8, (0 : UInt32).toBitVec.getLsbD z.val = (bInOperation z &&
      (lastStatus none).toBitVec.getLsbD i.val) := by
    intro i
    have hstatus : (lastStatus none).toBitVec.getLsbD i.val = false := BitVec.getLsbD_zero
    rw [hstatus, Bool.and_false]
    exact BitVec.getLsbD_zero
  refine ⟨hnone, ?_⟩
  show if bInOperation z = true then _ else _
  split
  next => exact ⟨rfl, rfl⟩
  next => exact ⟨rfl, rfl⟩

/-- A pass makes of every zone what its turn does. -/
theorem view_poll (u : Polling) (p : Polled) (z : Fin 20) :
    ((u.cu.activate p.bInOperation).pass p.pRecvBuff).view z =
      turn p.pRecvBuff z ((u.cu.activate p.bInOperation).view z) :=
  view_pass (u.cu.activate p.bInOperation) p.pRecvBuff z

/-- After a pass the zones follow their replies, and are shown as they are exactly if the pass is
fitting. -/
theorem poll_tracking {u w : Polling} {p : Polled} (h : Tracking u) (hw : poll u p = some w) :
    Tracking w ∧ (Shows w ↔ Fitting u p) := by
  cases hw
  have htracks : ∀ z, Tracks (((u.cu.activate p.bInOperation).pass p.pRecvBuff).view z)
      (p.last z (u.last z)) (p.idle z (u.idle z)) := by
    intro z
    have hz : Tracks ((u.cu.activate p.bInOperation).view z) (u.last z) (u.idle z) :=
      ⟨(h z).alarm, (h z).kept, (h z).gone⟩
    rw [view_poll]
    exact turn_tracks hz p rfl
  refine ⟨htracks, ?_⟩
  rw [shows_iff]
  apply forall_congr'
  intro z
  have hactive : (((u.cu.activate p.bInOperation).pass p.pRecvBuff).view z).2.bInOperation =
      p.bInOperation z := by
    rw [view_poll, turn_bInOperation]
    rfl
  have hidle : p.bInOperation z = false → p.idle z (u.idle z) = true := by
    intro hoff
    unfold Polled.idle
    rw [hoff]
    rfl
  have hfits : ZoneShows ((u.cu.activate p.bInOperation).pass p.pRecvBuff)
      (((u.cu.activate p.bInOperation).pass p.pRecvBuff).view z) (p.last z (u.last z)) ↔
        Fits u.cu (((u.cu.activate p.bInOperation).pass p.pRecvBuff).view z).2.bInOperation
          (p.last z (u.last z)) (p.idle z (u.idle z)) :=
    zoneShows_iff (htracks z) (by rw [hactive]; exact hidle)
  rw [hactive] at hfits
  exact hfits

/-- The invariant of the runs whose passes are fitting. -/
structure Shown (u : Polling) : Prop where
  tracking : Tracking u
  shows : Shows u

/-- Along a run the words and the reports show the last accepted replies exactly if all its passes
are fitting; no reply that overruns its buffer is accepted. -/
theorem shows_iff_fitting (ulSensorCount ulDistance : UInt32) (bInOperation : Fin 20 → Bool)
    (passes : List Polled) :
    (∀ u, Visits poll (loaded ulSensorCount ulDistance bInOperation) passes u → Shows u) ↔
      ∀ u p, Takes poll (loaded ulSensorCount ulDistance bInOperation) passes u p → Fitting u p := by
  obtain ⟨t, ht⟩ := exec_total poll (fun u p => ⟨_, rfl⟩) passes
    (loaded ulSensorCount ulDistance bInOperation)
  have hstart : Shown (loaded ulSensorCount ulDistance bInOperation) :=
    ⟨loaded_tracking _ _ _, loaded_shows _ _ _⟩
  apply visits_iff_takes hstart ?_ (fun _ h => h.shows) ?_ ht
  · intro u p w h hfit hw
    obtain ⟨htracking, hshows⟩ := poll_tracking h.tracking hw
    exact ⟨htracking, hshows.mpr hfit⟩
  · intro u p w h hfit hw
    obtain ⟨-, hshows⟩ := poll_tracking h.tracking hw
    exact mt hshows.mp hfit

/-- The reply of a zone with an alarm, after which the zone is stopped. -/
def alarmAndStop : List Polled :=
  [⟨fun z => z = 0, fun z => if z = 0 then [1, 7, 80, 0x44, 0, 0, 100, 0, 0, 245, 196, 3] else []⟩,
    ⟨fun _ => false, fun _ => []⟩]

/-- The zone is out of operation, and its alarm is still reported. -/
theorem stopped_zone_alarms :
    ¬ ∀ u, Visits poll (loaded 7 50 fun z => z = 0) alarmAndStop u → Shows u := by
  intro h
  obtain ⟨u, hu, hreport, hactive⟩ : ∃ u,
      exec poll alarmAndStop (loaded 7 50 fun z => z = 0) = some u ∧
        u.cu.report 0 = some (0, 4) ∧ (u.cu.pZones 0).bInOperation = false :=
    ⟨_, rfl, by decide +kernel, by decide +kernel⟩
  obtain ⟨sensor, alarm, hshown, hoff⟩ := (h u ⟨alarmAndStop, List.prefix_rfl, hu⟩).reports 0
  rw [hreport] at hshown
  cases hshown
  rw [hactive, if_neg Bool.false_ne_true] at hoff
  exact absurd hoff.2 (by decide)

end Runs

end EdgeNode.Obj.Cias
