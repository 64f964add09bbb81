import EdgeNode.Mbtcp.Master
import Mathlib.Data.Fintype.Basic

/-! Which answer a successful register read took its registers from. -/

namespace EdgeNode.Mbtcp.Master

open Runs

def received (c : List UInt8) : Nat → UInt8 := fun i => c.getD i 0

def registersOf (c : List UInt8) (k : Nat) : List UInt16 := (List.range k).map (register (received c))

/-- The tests that a read makes on the answer `c`. -/
def accepts (cfg : Config) (ulCount : UInt32) (c : List UInt8) : Bool :=
  lengthOk (received c) c.length && headerOk cfg (received c) (.read 0 ulCount)

def SameTransaction (pFrame c : List UInt8) : Prop :=
  received c 0 = received pFrame 0 ∧ received c 1 = received pFrame 1

instance (pFrame c : List UInt8) : Decidable (SameTransaction pFrame c) :=
  inferInstanceAs (Decidable (_ ∧ _))

/-- The answer `c` is one to the request `pFrame` for `ulCount` registers. -/
structure AnswerTo (pFrame : List UInt8) (ulCount : UInt32) (c : List UInt8) : Prop where
  transaction : SameTransaction pFrame c
  function : received c 7 = functionRead
  length : c.length = 9 + 2 * ulCount.toNat

/-- Every read that succeeded took its registers from an answer to its own request. -/
def Matched {τ : Type} (s : State τ) : Prop :=
  ∀ r ∈ s.results, ∃ c ∈ s.answers,
    AnswerTo r.pFrame r.ulCount c ∧ r.pRegisters = registersOf c r.ulCount.toNat

def Task.locks : Task → Bool
  | .locked (.read _ _) | .numbered (.read _ _) | .framed (.read _ _) _
  | .waiting (.read _ _) _ | .received (.read _ _) _ _ | .extracting _ _ _ => true
  | _ => false

/-- The task is a read with its answer in the receive buffer. -/
def Task.reading : Task → Bool
  | .received (.read _ _) _ _ | .extracting _ _ _ => true
  | _ => false

theorem Task.locks_of_reading {task : Task} (h : task.reading = true) : task.locks = true := by
  cases task with
  | received c pFrame n => cases c <;> simp_all [Task.reading, Task.locks]
  | extracting pFrame n regs => rfl
  | _ => simp [Task.reading] at h

section Matching

variable {τ : Type} (cfg : Config)

/-- The steps that keep answers and requests together: what a read is handed and lets pass has the
transaction identifier of its request and the length of its count, and no write receives while a
read has its answer in the buffer. -/
def Allowed (s : State τ) : Action τ → Prop
  | .poll t bytes => match s.tasks t with
    | .waiting (.read _ n) pFrame => accepts cfg n bytes = true →
      SameTransaction pFrame bytes ∧ bytes.length = 9 + 2 * n.toNat
    | .waiting (.write _ _) _ => ∀ u, (s.tasks u).reading = false
    | _ => True
  | _ => True

instance [Fintype τ] (s : State τ) : DecidablePred (Allowed cfg s) := fun a => by
  unfold Allowed
  split
  · split <;> infer_instance
  · infer_instance

def Agrees (pBuffer : Nat → UInt8) (c : List UInt8) : Prop :=
  ∀ i < bufferSize, pBuffer i = received c i

/-- What the buffer holds for a task. -/
def BufferFor (answers : List (List UInt8)) (pBuffer : Nat → UInt8) : Task → Prop
  | .received (.read _ n) pFrame nReadLen => ∃ c ∈ answers, nReadLen = c.length ∧
      c.length ≤ bufferSize ∧ Agrees pBuffer c ∧ (accepts cfg n c = true → AnswerTo pFrame n c)
  | .extracting pFrame n regs => ∃ c ∈ answers, c.length ≤ bufferSize ∧ Agrees pBuffer c ∧
      AnswerTo pFrame n c ∧ regs.length ≤ n.toNat ∧ regs = registersOf c regs.length
  | _ => True

structure Inv (s : State τ) : Prop where
  lock : ∀ t, (s.tasks t).locks = true → s.lock = some t
  buffer : ∀ t, BufferFor cfg s.answers s.pRcvdBuffer (s.tasks t)
  results : Matched s

variable {cfg}

theorem bufferFor_of_not_reading {answers : List (List UInt8)} {pBuffer : Nat → UInt8} {task : Task}
    (h : task.reading = false) : BufferFor cfg answers pBuffer task := by
  cases task with
  | received c pFrame n =>
    cases c with
    | read a n => simp [Task.reading] at h
    | write a v => trivial
  | extracting pFrame n regs => simp [Task.reading] at h
  | _ => trivial

theorem Agrees.receiveInto (c : List UInt8) (pBuffer : Nat → UInt8) :
    Agrees (receiveInto c pBuffer) c := by
  intro i hi
  simp [Master.receiveInto, hi, received]

/-- The tests look at the part of the buffer that the answer fills. -/
theorem accepts_of_agrees {pBuffer : Nat → UInt8} {c : List UInt8} {a n : UInt32}
    (h : Agrees pBuffer c)
    (ht : (lengthOk pBuffer c.length && headerOk cfg pBuffer (.read a n)) = true) :
    accepts cfg n c = true := by
  have hb : ∀ i < 9, pBuffer i = received c i := by
    intro i hi
    apply h
    simp only [bufferSize]
    omega
  simpa [accepts, lengthOk, headerOk, hb] using ht

theorem function_of_accepts {c : List UInt8} {n : UInt32} (h : accepts cfg n c = true) :
    received c 7 = functionRead := by
  simp only [accepts, headerOk, Bool.and_eq_true, beq_iff_eq] at h
  exact h.2.1.2

theorem register_of_agrees {pBuffer : Nat → UInt8} {c : List UInt8} {i : Nat}
    (h : Agrees pBuffer c) (hi : 9 + 2 * i + 2 ≤ bufferSize) :
    register pBuffer i = register (received c) i := by
  have h₀ := h (9 + i * 2) (by omega)
  have h₁ := h (9 + i * 2 + 1) (by omega)
  simp only [register, h₀, h₁]

theorem registersOf_succ (c : List UInt8) (k : Nat) :
    registersOf c (k + 1) = registersOf c k ++ [register (received c) k] := by
  simp [registersOf, List.range_succ]

theorem inv_start {s : State τ} (h : Start s) : Inv cfg s := by
  obtain ⟨-, ht, hr⟩ := h
  refine ⟨fun t hl => ?_, fun t => ?_, fun r hm => ?_⟩
  · simp [ht, Task.locks] at hl
  · rw [ht]
    trivial
  · simp [hr] at hm

theorem Inv.not_reading {s : State τ} (h : Inv cfg s) {t u : τ} (ht : (s.tasks t).locks = true)
    (hu : u ≠ t) : (s.tasks u).reading = false := by
  by_contra hr
  have hlu := h.lock u (Task.locks_of_reading (by simpa using hr))
  rw [h.lock t ht] at hlu
  exact hu (Option.some.inj hlu).symm

theorem Inv.relink {s : State τ} (h : Inv cfg s) (up : Bool) (tid : UInt32) :
    Inv cfg { s with connected := up, ulTransactionID := tid } :=
  ⟨h.lock, h.buffer, h.results⟩

variable [DecidableEq τ]

theorem Inv.update {s s' : State τ} (h : Inv cfg s) (t : τ)
    (hothers : ∀ u, u ≠ t → s'.tasks u = s.tasks u)
    (hlock : s'.lock = s.lock ∨ s.lock = none ∨ s.lock = some t)
    (hmine : (s'.tasks t).locks = true → s'.lock = some t)
    (hbuffer : s'.pRcvdBuffer = s.pRcvdBuffer ∨ ∀ u, u ≠ t → (s.tasks u).reading = false)
    (hanswers : s'.answers = s.answers ∨ ∀ u, u ≠ t → (s.tasks u).reading = false)
    (hfor : BufferFor cfg s'.answers s'.pRcvdBuffer (s'.tasks t)) (hresults : Matched s') :
    Inv cfg s' := by
  refine ⟨fun u hl => ?_, fun u => ?_, hresults⟩
  · by_cases hu : u = t
    · subst hu
      exact hmine hl
    rw [hothers u hu] at hl
    have hs := h.lock u hl
    rcases hlock with hk | hk | hk
    · rw [hk, hs]
    · simp [hk] at hs
    · rw [hk] at hs
      exact absurd (Option.some.inj hs).symm hu
  · by_cases hu : u = t
    · subst hu
      exact hfor
    rw [hothers u hu]
    by_cases hr : (s.tasks u).reading = false
    · exact bufferFor_of_not_reading hr
    have hb : s'.pRcvdBuffer = s.pRcvdBuffer := hbuffer.resolve_right fun hn => hr (hn u hu)
    have ha : s'.answers = s.answers := hanswers.resolve_right fun hn => hr (hn u hu)
    rw [hb, ha]
    exact h.buffer u

theorem Inv.setTask {s : State τ} (h : Inv cfg s) {t : τ} {task : Task}
    (hl : task.locks = true → (s.tasks t).locks = true) (hr : task.reading = false) :
    Inv cfg (s.setTask t task) := by
  refine h.update t (fun u hu => by simp [State.setTask, hu]) (.inl rfl) ?_ (.inl rfl) (.inl rfl)
    ?_ h.results
  · intro hk
    exact h.lock t (hl (by simpa [State.setTask] using hk))
  · simpa [State.setTask] using bufferFor_of_not_reading hr

theorem Inv.leave {s : State τ} (h : Inv cfg s) {t : τ} {c : Call}
    (hl : ∀ a n, c = .read a n → (s.tasks t).locks = true) : Inv cfg (s.leave t c) := by
  cases c with
  | read a n =>
    have hs := h.lock t (hl a n rfl)
    refine h.update t (fun u hu => by simp [State.leave, State.setTask, hu]) (.inr (.inr hs)) ?_
      (.inl rfl) (.inl rfl) ?_ h.results
    · simp [State.leave, State.setTask, Task.locks]
    · simp [State.leave, State.setTask, BufferFor]
  | write a v =>
    refine h.update t (fun u hu => by simp [State.leave, State.setTask, hu]) (.inl rfl) ?_
      (.inl rfl) (.inl rfl) ?_ h.results
    · simp [State.leave, State.setTask, Task.locks]
    · simp [State.leave, State.setTask, BufferFor]

theorem inv_poll {s s' : State τ} {t : τ} {bytes : List UInt8} (h : Inv cfg s)
    (ha : Allowed cfg s (.poll t bytes)) (hs : step cfg s (.poll t bytes) = some s') :
    Inv cfg s' := by
  obtain ⟨c, pFrame, ht, hlen, hnext⟩ := step_poll hs
  simp only [Allowed, ht] at ha
  have hothers : ∀ u, u ≠ t → (s.tasks u).reading = false := by
    intro u hu
    cases c with
    | read a n => exact h.not_reading (by simp [ht, Task.locks]) hu
    | write a v => exact ha u
  obtain rfl | ⟨answers, rfl, ⟨a, n, rfl, rfl⟩ | ⟨a, v, rfl, rfl⟩⟩ := hnext
  · refine h.update t (fun _ _ => rfl) (.inl rfl) (h.lock t) (.inr hothers) (.inl rfl) ?_ h.results
    simp [ht, BufferFor]
  · have hl := h.lock t (by simp [ht, Task.locks])
    refine h.update t (fun u hu => by simp [State.setTask, hu]) (.inl rfl) (fun _ => hl)
      (.inr hothers) (.inr hothers) ?_ ?_
    · simp only [State.setTask, Function.update_self]
      have hans : accepts cfg n bytes = true → AnswerTo pFrame n bytes := fun hacc =>
        ⟨(ha hacc).1, function_of_accepts hacc, (ha hacc).2⟩
      exact ⟨bytes, by simp, rfl, hlen, Agrees.receiveInto _ _, hans⟩
    · intro r hr
      obtain ⟨c, hc, hm⟩ := h.results r hr
      exact ⟨c, List.mem_append_left _ hc, hm⟩
  · refine h.update t (fun u hu => by simp [State.setTask, hu]) (.inl rfl) ?_ (.inr hothers)
      (.inl rfl) ?_ h.results
    · simp [State.setTask, Task.locks]
    · simp [State.setTask, BufferFor]

theorem inv_check {s s' : State τ} {t : τ} (h : Inv cfg s)
    (hs : step cfg s (.check t) = some s') : Inv cfg s' := by
  obtain ⟨c, pFrame, nReadLen, ht, rfl | ⟨a, n, rfl, hok, rfl⟩⟩ := step_check hs
  · exact h.leave fun a n hc => by simp [ht, hc, Task.locks]
  · have hb := h.buffer t
    rw [ht] at hb
    obtain ⟨c, hc, rfl, hsize, hag, hans⟩ := hb
    have hl := h.lock t (by simp [ht, Task.locks])
    refine h.update t (fun u hu => by simp [State.setTask, hu]) (.inl rfl) (fun _ => hl)
      (.inl rfl) (.inl rfl) ?_ h.results
    simp only [State.setTask, Function.update_self]
    exact ⟨c, hc, hsize, hag, hans (accepts_of_agrees hag hok), Nat.zero_le _, rfl⟩

theorem inv_extract {s s' : State τ} {t : τ} (h : Inv cfg s)
    (hs : step cfg s (.extract t) = some s') : Inv cfg s' := by
  obtain ⟨pFrame, n, regs, ht, hnext⟩ := step_extract hs
  have hl := h.lock t (by simp [ht, Task.locks])
  have hb := h.buffer t
  rw [ht] at hb
  obtain ⟨c, hc, hsize, hag, hans, hle, hregs⟩ := hb
  have hlen := hans.length
  obtain ⟨hlt, rfl⟩ | ⟨hge, rfl⟩ := hnext
  · refine h.update t (fun u hu => by simp [State.setTask, hu]) (.inl rfl) (fun _ => hl)
      (.inl rfl) (.inl rfl) ?_ h.results
    simp only [State.setTask, Function.update_self]
    refine ⟨c, hc, hsize, hag, hans, by simpa [Nat.succ_le_iff] using hlt, ?_⟩
    rw [List.length_append, List.length_singleton, registersOf_succ, ← hregs,
      register_of_agrees hag (by omega)]
  · have hall : regs.length = n.toNat := Nat.le_antisymm hle hge
    refine h.update t (fun u hu => by simp [State.leave, State.setTask, hu]) (.inr (.inr hl)) ?_
      (.inl rfl) (.inl rfl) ?_ ?_
    · simp [State.leave, State.setTask, Task.locks]
    · simp [State.leave, State.setTask, BufferFor]
    · intro r hr
      rcases List.mem_append.mp hr with hr | hr
      · exact h.results r hr
      · cases List.mem_singleton.mp hr
        exact ⟨c, hc, hans, by rw [← hall]; exact hregs⟩

theorem inv_step {s s' : State τ} {a : Action τ} (h : Inv cfg s) (ha : Allowed cfg s a)
    (hs : step cfg s a = some s') : Inv cfg s' := by
  cases a with
  | link up =>
    cases hs
    exact h.relink up s.ulTransactionID
  | call t c =>
    obtain ⟨-, rfl⟩ := step_call hs
    exact h.setTask (by simp [Task.locks]) rfl
  | lock t =>
    obtain ⟨c, -, ⟨a, n, rfl, hfree, rfl⟩ | ⟨a, v, rfl, rfl⟩⟩ := step_lock hs
    · refine h.update t (fun u hu => by simp [State.setTask, hu]) (.inr (.inl hfree))
        (fun _ => rfl) (.inl rfl) (.inl rfl) ?_ h.results
      simp [State.setTask, BufferFor]
    · exact h.setTask (by simp [Task.locks]) rfl
  | number t =>
    obtain ⟨c, ht, ⟨-, rfl⟩ | ⟨-, rfl⟩⟩ := step_number hs
    · refine Inv.relink (h.setTask (fun hk => ?_) rfl) s.connected _
      cases c <;> simp_all [Task.locks]
    · exact h.leave fun a n hc => by simp [ht, hc, Task.locks]
  | frame t =>
    obtain ⟨c, ht, rfl⟩ := step_frame hs
    refine h.setTask (fun hk => ?_) rfl
    cases c <;> simp_all [Task.locks]
  | send t sent broken =>
    obtain ⟨c, pFrame, ht, ⟨-, rfl⟩ | ⟨-, rfl⟩⟩ := step_send hs
    · refine h.setTask (fun hk => ?_) rfl
      cases c <;> simp_all [Task.locks]
    · have hout : Inv cfg (s.leave t c) := h.leave fun a n hc => by simp [ht, hc, Task.locks]
      exact hout.relink _ _
  | poll t bytes => exact inv_poll h ha hs
  | abort t broken =>
    obtain ⟨c, pFrame, ht, rfl⟩ := step_abort hs
    have hout : Inv cfg (s.leave t c) := h.leave fun a n hc => by simp [ht, hc, Task.locks]
    exact hout.relink _ _
  | check t => exact inv_check h hs
  | extract t => exact inv_extract h hs

/-- In every run whose steps are all allowed, a successful read returns the registers of an answer
to its own request. -/
theorem matched_of_allowed {s u : State τ} {acts : List (Action τ)} (hs : Start s)
    (ha : ∀ v a, Takes (step cfg) s acts v a → Allowed cfg v a) (hu : Visits (step cfg) s acts u) :
    Matched u :=
  (inv_of_takes (inv_start hs) (fun _ _ _ => inv_step) ha hu).results

end Matching

section Runs

def rest (τ : Type) : State τ where
  connected := true
  ulTransactionID := 0
  pRcvdBuffer := fun _ => 0
  lock := none
  tasks := fun _ => .idle
  answers := []
  results := []

theorem start_rest (τ : Type) : Start (rest τ) := ⟨rfl, fun _ => rfl, rfl⟩

/-- A read of one register that asks and is then handed `bytes`. -/
def readOf (ulAddress : UInt32) (bytes : List UInt8) : List (Action Unit) :=
  [.call () (.read ulAddress 1), .lock (), .number (), .frame (), .send () true false,
    .poll () bytes, .check (), .extract (), .extract ()]

def readTimedOut (ulAddress : UInt32) : List (Action Unit) :=
  [.call () (.read ulAddress 1), .lock (), .number (), .frame (), .send () true false,
    .abort () false]

/-- The answer to a read that timed out arrives inside the next read and is taken for its answer. -/
theorem late_answer_accepted :
    ∃ u, exec (step ⟨1, 0⟩) (readTimedOut 0 ++ readOf 5 [0, 1, 0, 0, 0, 5, 1, 3, 2, 18, 52])
        (rest Unit) = some u ∧ u.results.length = 1 ∧ ¬ Matched u := by
  refine ⟨_, rfl, rfl, fun h => ?_⟩
  obtain ⟨c, hc, hm, -⟩ := h _ (List.mem_singleton.mpr rfl)
  cases List.mem_singleton.mp hc
  have ht := hm.transaction.2
  revert ht
  decide

/-- Two tasks at once: the first is handed a late answer of another function and fails, the second
polls once for nothing and then gets its own. -/
def twoReads : List (Action Bool) :=
  [.call false (.read 5 1), .call true (.read 7 2), .lock false, .number false, .frame false,
    .send false true false, .poll false [0, 9, 0, 0, 0, 5, 1, 4, 2, 0, 7], .check false, .lock true,
    .number true, .frame true, .send true true false, .poll true [],
    .poll true [0, 2, 0, 0, 0, 7, 1, 3, 4, 18, 52, 0, 1], .check true, .extract true, .extract true,
    .extract true]

theorem own_answer_matched :
    ∃ u, exec (step ⟨1, 0⟩) twoReads (rest Bool) = some u ∧ u.results.length = 1 ∧ Matched u := by
  obtain ⟨u, hu, hl⟩ : ∃ u, exec (step ⟨1, 0⟩) twoReads (rest Bool) = some u ∧
      u.results.length = 1 := ⟨_, rfl, rfl⟩
  exact ⟨u, hu, hl, matched_of_allowed (start_rest Bool) (takes_of_along (by decide))
    ⟨_, List.prefix_rfl, hu⟩⟩

end Runs

end EdgeNode.Mbtcp.Master
