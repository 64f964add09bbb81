import EdgeNode.Types
import EdgeNode.Lib.Runs

/-! The Modbus/TCP master: register reads and writes of any number of tasks over one
connection, one transaction counter and one receive buffer. -/

namespace EdgeNode.Mbtcp.Master

def bufferSize : Nat := 250
def functionRead : UInt8 := 3
def functionWrite : UInt8 := 6

structure Config where
  ulUnitID : UInt8
  usOffset : UInt16

inductive Call where
  | read (ulAddress ulCount : UInt32)
  | write (ulAddress : UInt32) (ulValue : UInt16)

/-- Where a task stands in `FTE_MBTCP_MASTER_readRegisters` or `FTE_MBTCP_MASTER_writeRegister`. -/
inductive Task where
  | idle
  | entered (call : Call)
  | locked (call : Call)
  | numbered (call : Call)
  | framed (call : Call) (pFrame : List UInt8)
  | waiting (call : Call) (pFrame : List UInt8)
  | received (call : Call) (pFrame : List UInt8) (nReadLen : Nat)
  | extracting (pFrame : List UInt8) (ulCount : UInt32) (pRegisters : List UInt16)

/-- A read that returned `FTE_RET_OK`: its request frame, its count and its registers. -/
structure ReadResult where
  pFrame : List UInt8
  ulCount : UInt32
  pRegisters : List UInt16

/-- The master, its tasks, and as ghosts the frames that reads received and the successful reads. -/
structure State (τ : Type) where
  connected : Bool
  ulTransactionID : UInt32
  pRcvdBuffer : Nat → UInt8
  lock : Option τ
  tasks : τ → Task
  answers : List (List UInt8)
  results : List ReadResult

def lowByte (w : UInt32) : UInt8 := UInt8.ofNat w.toNat

/-- The request frame, with the transaction counter as it stands when the frame is built. -/
def requestFrame (cfg : Config) (ulTransactionID : UInt32) : Call → List UInt8
  | .read ulAddress ulCount =>
    let ulAddress := ulAddress + cfg.usOffset.toUInt32
    [lowByte (ulTransactionID >>> 8), lowByte ulTransactionID, 0, 0, 0, 6, cfg.ulUnitID,
      functionRead, lowByte (ulAddress >>> 8), lowByte ulAddress,
      lowByte (ulCount >>> 8), lowByte ulCount]
  | .write ulAddress ulValue =>
    [lowByte (ulTransactionID >>> 8), lowByte ulTransactionID, 0, 0, 0, 6, cfg.ulUnitID,
      functionWrite, lowByte (ulAddress >>> 8), lowByte ulAddress,
      lowByte (ulValue.toUInt32 >>> 8), lowByte ulValue.toUInt32]

/-- The receive buffer after `memset` and a `recv` of `c`. The bytes behind it are other fields. -/
def receiveInto (c : List UInt8) (pBuffer : Nat → UInt8) : Nat → UInt8 :=
  fun i => if i < bufferSize then c.getD i 0 else pBuffer i

/-- The length test at the end of `FTE_MBTCP_MASTER_recvPacket`. -/
def lengthOk (pBuffer : Nat → UInt8) (nReadLen : Nat) : Bool :=
  nReadLen == 6 + (ntohs (pBuffer 4) (pBuffer 5)).toNat

/-- The tests of the two callers. The transaction identifier is not among them. -/
def headerOk (cfg : Config) (pBuffer : Nat → UInt8) : Call → Bool
  | .read _ ulCount =>
    pBuffer 6 == cfg.ulUnitID && pBuffer 7 == functionRead && (pBuffer 8).toUInt32 == ulCount * 2
  | .write _ _ => pBuffer 6 == cfg.ulUnitID && pBuffer 7 == functionWrite

def register (pBuffer : Nat → UInt8) (i : Nat) : UInt16 :=
  ntohs (pBuffer (9 + i * 2)) (pBuffer (9 + i * 2 + 1))

inductive Action (τ : Type) where
  | link (up : Bool)
  | call (t : τ) (c : Call)
  | lock (t : τ)
  | number (t : τ)
  | frame (t : τ)
  | send (t : τ) (sent broken : Bool)
  | poll (t : τ) (c : List UInt8)
  | abort (t : τ) (broken : Bool)
  | check (t : τ)
  | extract (t : τ)

section Step

variable {τ : Type} [DecidableEq τ] (cfg : Config)

def State.setTask (s : State τ) (t : τ) (task : Task) : State τ :=
  { s with tasks := Function.update s.tasks t task }

/-- The way out: a read gives the lock back, a write never took it. -/
def State.leave (s : State τ) (t : τ) : Call → State τ
  | .read _ _ => { s.setTask t .idle with lock := none }
  | .write _ _ => s.setTask t .idle

def step (s : State τ) : Action τ → Option (State τ)
  | .link up => some { s with connected := up }
  | .call t c => match s.tasks t with
    | .idle => some (s.setTask t (.entered c))
    | _ => none
  | .lock t => match s.tasks t with
    | .entered (.read a n) =>
      if s.lock = none then some { s.setTask t (.locked (.read a n)) with lock := some t } else none
    | .entered (.write a v) => some (s.setTask t (.locked (.write a v)))
    | _ => none
  | .number t => match s.tasks t with
    | .locked c =>
      if s.connected then
        some { s.setTask t (.numbered c) with ulTransactionID := s.ulTransactionID + 1 }
      else some (s.leave t c)
    | _ => none
  | .frame t => match s.tasks t with
    | .numbered c => some (s.setTask t (.framed c (requestFrame cfg s.ulTransactionID c)))
    | _ => none
  | .send t sent broken => match s.tasks t with
    | .framed c pFrame =>
      if sent then some (s.setTask t (.waiting c pFrame))
      else some { s.leave t c with connected := s.connected && !broken }
    | _ => none
  | .poll t bytes => match s.tasks t with
    | .waiting c pFrame =>
      if bytes.length ≤ bufferSize then
        let s := { s with pRcvdBuffer := receiveInto bytes s.pRcvdBuffer }
        if bytes = [] then some s
        else match c with
          | .read _ _ => some { s.setTask t (.received c pFrame bytes.length) with
              answers := s.answers ++ [bytes] }
          | .write _ _ => some (s.setTask t (.received c pFrame bytes.length))
      else none
    | _ => none
  | .abort t broken => match s.tasks t with
    | .waiting c _ => some { s.leave t c with connected := s.connected && !broken }
    | _ => none
  | .check t => match s.tasks t with
    | .received c pFrame nReadLen =>
      if lengthOk s.pRcvdBuffer nReadLen && headerOk cfg s.pRcvdBuffer c then
        match c with
        | .read _ n => some (s.setTask t (.extracting pFrame n []))
        | .write _ _ => some (s.leave t c)
      else some (s.leave t c)
    | _ => none
  | .extract t => match s.tasks t with
    | .extracting pFrame n regs =>
      if regs.length < n.toNat then
        some (s.setTask t (.extracting pFrame n (regs ++ [register s.pRcvdBuffer regs.length])))
      else some { s.leave t (.read 0 n) with results := s.results ++ [⟨pFrame, n, regs⟩] }
    | _ => none

/-- Every task is outside the two functions, and no read has been made. -/
def Start (s : State τ) : Prop := s.lock = none ∧ (∀ t, s.tasks t = .idle) ∧ s.results = []

variable {cfg} {s s' : State τ} {t : τ}

theorem step_call {c : Call} (h : step cfg s (.call t c) = some s') :
    s.tasks t = .idle ∧ s' = s.setTask t (.entered c) := by
  cases ht : s.tasks t with
  | idle =>
    simp only [step, ht, Option.some.injEq] at h
    exact ⟨rfl, h.symm⟩
  | _ => simp [step, ht] at h

/-- A write never takes the lock. -/
theorem step_lock (h : step cfg s (.lock t) = some s') : ∃ c, s.tasks t = .entered c ∧
    ((∃ a n, c = .read a n ∧ s.lock = none ∧ s' = { s.setTask t (.locked c) with lock := some t }) ∨
      ∃ a v, c = .write a v ∧ s' = s.setTask t (.locked c)) := by
  cases ht : s.tasks t with
  | entered c =>
    cases c with
    | read a n =>
      simp only [step, ht, Option.ite_none_right_eq_some, Option.some.injEq] at h
      exact ⟨_, rfl, .inl ⟨a, n, rfl, h.1, h.2.symm⟩⟩
    | write a v =>
      simp only [step, ht, Option.some.injEq] at h
      exact ⟨_, rfl, .inr ⟨a, v, rfl, h.symm⟩⟩
  | _ => simp [step, ht] at h

theorem step_number (h : step cfg s (.number t) = some s') : ∃ c, s.tasks t = .locked c ∧
    ((s.connected = true ∧
        s' = { s.setTask t (.numbered c) with ulTransactionID := s.ulTransactionID + 1 }) ∨
      (s.connected = false ∧ s' = s.leave t c)) := by
  cases ht : s.tasks t with
  | locked c =>
    simp only [step, ht] at h
    split at h
    next hup => exact ⟨c, rfl, .inl ⟨hup, (Option.some.inj h).symm⟩⟩
    next hdown =>
      exact ⟨c, rfl, .inr ⟨Bool.eq_false_iff.mpr hdown, (Option.some.inj h).symm⟩⟩
  | _ => simp [step, ht] at h

theorem step_frame (h : step cfg s (.frame t) = some s') : ∃ c, s.tasks t = .numbered c ∧
    s' = s.setTask t (.framed c (requestFrame cfg s.ulTransactionID c)) := by
  cases ht : s.tasks t with
  | numbered c =>
    simp only [step, ht, Option.some.injEq] at h
    exact ⟨c, rfl, h.symm⟩
  | _ => simp [step, ht] at h

theorem step_send {sent broken : Bool} (h : step cfg s (.send t sent broken) = some s') :
    ∃ c pFrame, s.tasks t = .framed c pFrame ∧
      ((sent = true ∧ s' = s.setTask t (.waiting c pFrame)) ∨
        (sent = false ∧ s' = { s.leave t c with connected := s.connected && !broken })) := by
  cases ht : s.tasks t with
  | framed c pFrame =>
    simp only [step, ht] at h
    split at h
    next hsent => exact ⟨c, pFrame, rfl, .inl ⟨hsent, (Option.some.inj h).symm⟩⟩
    next hsent =>
      exact ⟨c, pFrame, rfl, .inr ⟨Bool.eq_false_iff.mpr hsent, (Option.some.inj h).symm⟩⟩
  | _ => simp [step, ht] at h

/-- Only what a read receives is an answer. -/
theorem step_poll {bytes : List UInt8} (h : step cfg s (.poll t bytes) = some s') :
    ∃ c pFrame, s.tasks t = .waiting c pFrame ∧ bytes.length ≤ bufferSize ∧
      (s' = { s with pRcvdBuffer := receiveInto bytes s.pRcvdBuffer } ∨
        ∃ answers, s' = { s.setTask t (.received c pFrame bytes.length) with
            pRcvdBuffer := receiveInto bytes s.pRcvdBuffer, answers } ∧
          ((∃ a n, c = .read a n ∧ answers = s.answers ++ [bytes]) ∨
            ∃ a v, c = .write a v ∧ answers = s.answers)) := by
  cases ht : s.tasks t with
  | waiting c pFrame =>
    simp only [step, ht] at h
    split at h
    next hlen =>
      refine ⟨c, pFrame, rfl, hlen, ?_⟩
      split at h
      · exact .inl (Option.some.inj h).symm
      · cases c with
        | read a n => exact .inr ⟨_, (Option.some.inj h).symm, .inl ⟨a, n, rfl, rfl⟩⟩
        | write a v => exact .inr ⟨_, (Option.some.inj h).symm, .inr ⟨a, v, rfl, rfl⟩⟩
    next => cases h
  | _ => simp [step, ht] at h

theorem step_abort {broken : Bool} (h : step cfg s (.abort t broken) = some s') :
    ∃ c pFrame, s.tasks t = .waiting c pFrame ∧
      s' = { s.leave t c with connected := s.connected && !broken } := by
  cases ht : s.tasks t with
  | waiting c pFrame =>
    simp only [step, ht, Option.some.injEq] at h
    exact ⟨c, pFrame, rfl, h.symm⟩
  | _ => simp [step, ht] at h

theorem step_check (h : step cfg s (.check t) = some s') :
    ∃ c pFrame nReadLen, s.tasks t = .received c pFrame nReadLen ∧ (s' = s.leave t c ∨
      ∃ a n, c = .read a n ∧
        (lengthOk s.pRcvdBuffer nReadLen && headerOk cfg s.pRcvdBuffer c) = true ∧
        s' = s.setTask t (.extracting pFrame n [])) := by
  cases ht : s.tasks t with
  | received c pFrame nReadLen =>
    simp only [step, ht] at h
    refine ⟨c, pFrame, nReadLen, rfl, ?_⟩
    split at h
    next hok =>
      cases c with
      | read a n => exact .inr ⟨a, n, rfl, hok, (Option.some.inj h).symm⟩
      | write a v => exact .inl (Option.some.inj h).symm
    next => exact .inl (Option.some.inj h).symm
  | _ => simp [step, ht] at h

theorem step_extract (h : step cfg s (.extract t) = some s') :
    ∃ pFrame n regs, s.tasks t = .extracting pFrame n regs ∧
      ((regs.length < n.toNat ∧ s' = s.setTask t
          (.extracting pFrame n (regs ++ [register s.pRcvdBuffer regs.length]))) ∨
        (n.toNat ≤ regs.length ∧
          s' = { s.leave t (.read 0 n) with results := s.results ++ [⟨pFrame, n, regs⟩] })) := by
  cases ht : s.tasks t with
  | extracting pFrame n regs =>
    simp only [step, ht] at h
    refine ⟨pFrame, n, regs, rfl, ?_⟩
    split at h
    next hlt => exact .inl ⟨hlt, (Option.some.inj h).symm⟩
    next hge => exact .inr ⟨Nat.not_lt.mp hge, (Option.some.inj h).symm⟩
  | _ => simp [step, ht] at h

end Step

end EdgeNode.Mbtcp.Master
