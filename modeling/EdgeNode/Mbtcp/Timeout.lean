import EdgeNode.Lib.Runs
import EdgeNode.Sys.Ticks

/-! The wait for a packet: the loop of `FTE_MBTCP_MASTER_recvPacket` over the wake-ups of its
socket. -/

namespace EdgeNode.Mbtcp.RecvPacket

open Runs Sys

/-- A time of a clock that does not run backwards. -/
structure Later (xStartTime : TimeStruct) where
  time : TimeStruct
  le : xStartTime.msecs ≤ time.msecs

/-- What becomes of a select: it expires, or it wakes the task, `recv` returns and the clock is
read. -/
inductive Wake (xStartTime : TimeStruct) where
  | expired
  | woken (nRcvdLen : Int) (xCurrentTime : Later xStartTime)

variable {xStartTime : TimeStruct}

inductive Loop where
  | waiting (ulTimeout : UInt32)
  | aborted
  | closed
  | read (nReadLen : Int)
  | left
  deriving DecidableEq

/-- The loop, and as a ghost the milliseconds since the start at the last look at the clock. -/
structure Wait where
  loop : Loop
  elapsed : Nat
  deriving DecidableEq

/-- The test at the head of the loop, which is a select with the time `ulTimeout`. -/
def enter (ulTimeout : UInt32) (elapsed : Nat) : Wait :=
  ⟨if ulTimeout > 0 then .waiting ulTimeout else .left, elapsed⟩

def sinceStart (xCurrentTime : Later xStartTime) : Nat :=
  xCurrentTime.time.msecs - xStartTime.msecs

/-- The rest of the loop after a `recv` without data. -/
def charge (ulTimeout : UInt32) (xCurrentTime : Later xStartTime) : Wait :=
  let nDiffMSec := diffMilliseconds xCurrentTime.time xStartTime
  if nDiffMSec < 0 ∧ ulTimeout < nDiffMSec.toUInt32 then ⟨.left, sinceStart xCurrentTime⟩
  else enter (ulTimeout - nDiffMSec.toUInt32) (sinceStart xCurrentTime)

/-- An expired select has waited for its time; once the function has returned nobody waits. -/
def step (s : Wait) : Wake xStartTime → Option Wait
  | .expired => match s.loop with
    | .waiting ulTimeout => some ⟨.aborted, s.elapsed + ulTimeout.toNat⟩
    | _ => some s
  | .woken nRcvdLen xCurrentTime => match s.loop with
    | .waiting ulTimeout =>
      if nRcvdLen < 0 then some ⟨.closed, s.elapsed⟩
      else if nRcvdLen > 0 then some ⟨.read nRcvdLen, s.elapsed⟩
      else some (charge ulTimeout xCurrentTime)
    | _ => some s

/-- Without data the wait goes on below the timeout `T` and ends from there on, and no select is
given more than the rest of it. -/
def Keeps (T : UInt32) (s : Wait) : Prop :=
  match s.loop with
  | .waiting ulTimeout => s.elapsed < T.toNat ∧ ulTimeout.toNat ≤ T.toNat - s.elapsed
  | .aborted | .left => T.toNat ≤ s.elapsed
  | .closed | .read _ => True

/-- Below `T` less has gone by than is left to wait; from `T` on the difference uses up the rest or is
negative and more than it. -/
def AllowedCharge (T ulTimeout : UInt32) (xCurrentTime : Later xStartTime) : Prop :=
  let nDiffMSec := diffMilliseconds xCurrentTime.time xStartTime
  if sinceStart xCurrentTime < T.toNat then sinceStart xCurrentTime < ulTimeout.toNat
  else nDiffMSec.toUInt32 = ulTimeout ∨ (nDiffMSec < 0 ∧ ulTimeout < nDiffMSec.toUInt32)

/-- A select that expires was given the whole rest of the time. -/
def Allowed (T : UInt32) (s : Wait) : Wake xStartTime → Prop
  | .expired => match s.loop with
    | .waiting ulTimeout => T.toNat ≤ s.elapsed + ulTimeout.toNat
    | _ => True
  | .woken nRcvdLen xCurrentTime => match s.loop with
    | .waiting ulTimeout => nRcvdLen = 0 → AllowedCharge T ulTimeout xCurrentTime
    | _ => True

variable {T ulTimeout : UInt32}

theorem step_total (s : Wait) (w : Wake xStartTime) : ∃ s', step s w = some s' := by
  obtain ⟨loop, elapsed⟩ := s
  cases w with
  | expired => cases loop <;> exact ⟨_, rfl⟩
  | woken nRcvdLen xCurrentTime =>
    cases loop with
    | waiting ulTimeout =>
      simp only [step]
      split_ifs <;> exact ⟨_, rfl⟩
    | _ => exact ⟨_, rfl⟩

end EdgeNode.Mbtcp.RecvPacket
