import EdgeNode.Lib.DropOldest
import EdgeNode.Lib.Ring
import EdgeNode.Lib.Runs
import Mathlib.Data.List.Sublists

/-! The receive ring of a serial channel: the receiving task fills it, `FTE_UCS_recv`,
`FTE_UCS_recvLast` and `FTE_UCS_sendAndRecv` empty it, `FTE_UCS_clear` drops what it holds. -/

namespace EdgeNode.Ucs

open Ring Runs
open scoped List

/-- The lengths in `FTE_UCS_CONFIG`. A buffer is memory, so an index plus a count fits a word. -/
structure Config where
  nRecvBufLen : Nat
  nSendBufLen : Nat
  recv_pos : 0 < nRecvBufLen
  send_pos : 0 < nSendBufLen
  recv_le : nRecvBufLen ≤ 2 ^ 31
  send_le : nSendBufLen ≤ 2 ^ 31

/-- The channels of the product have two buffers of 256 bytes. -/
def product : Config := ⟨256, 256, by decide, by decide, by decide, by decide⟩

/-- The receive side of `FTE_UCS`. An element is a byte, or a byte with what a reader wants to
know it by. -/
structure RecvRing (α : Type) where
  pRecvBuf : Nat → α
  nRecvHead : Nat
  nRecvTail : Nat
  nRecvCount : Nat

namespace RecvRing

variable {α : Type} (cfg : Config)

/-- `FTE_UCS_TASK_recv` with one byte read. -/
def taskRecv (r : RecvRing α) (nData : α) : RecvRing α :=
  let r := { r with
    pRecvBuf := Function.update r.pRecvBuf r.nRecvTail nData
    nRecvTail := (r.nRecvTail + 1) % cfg.nRecvBufLen
    nRecvCount := r.nRecvCount + 1 }
  if r.nRecvCount = cfg.nRecvBufLen then
    { r with nRecvHead := (r.nRecvHead + 1) % cfg.nRecvBufLen, nRecvCount := r.nRecvCount - 1 }
  else r

/-- `_FTE_UCS_clear`: neither index moves. -/
def clear (r : RecvRing α) : RecvRing α := { r with nRecvCount := 0 }

/-- The two copies of `_FTE_UCS_recv`. -/
def copyOut (r : RecvRing α) (nCount : Nat) : List α :=
  if r.nRecvHead + nCount < cfg.nRecvBufLen then block r.pRecvBuf r.nRecvHead nCount
  else
    let nTailCount := cfg.nRecvBufLen - r.nRecvHead
    block r.pRecvBuf r.nRecvHead nTailCount ++ block r.pRecvBuf 0 (nCount - nTailCount)

/-- `_FTE_UCS_recv`: what it leaves in `pBuff`, and the ring. -/
def recv (r : RecvRing α) (nBuffLen : Nat) : List α × RecvRing α :=
  if r.nRecvCount ≠ 0 then
    let nCount := if nBuffLen > r.nRecvCount then r.nRecvCount else nBuffLen
    let pBuff := r.copyOut cfg nCount
    let r := { r with
      nRecvHead := (r.nRecvHead + nCount) % cfg.nRecvBufLen
      nRecvCount := r.nRecvCount - nCount }
    (pBuff, if r.nRecvCount = 0 then { r with nRecvHead := 0, nRecvTail := 0 } else r)
  else ([], r)

/-- The skip in `FTE_UCS_recvLast`. -/
def skip (r : RecvRing α) (nBuffLen : Nat) : RecvRing α :=
  if r.nRecvCount > nBuffLen then
    { r with
      nRecvHead := (r.nRecvHead + (r.nRecvCount - nBuffLen)) % cfg.nRecvBufLen
      nRecvCount := nBuffLen }
  else r

def recvLast (r : RecvRing α) (nBuffLen : Nat) : List α × RecvRing α :=
  (r.skip cfg nBuffLen).recv cfg nBuffLen

end RecvRing

/-- The channel. As ghosts, since the last clear: the bytes that arrived, what each receive
returned, what a queue of the ring's capacity would hold and would have returned. -/
structure Channel (α : Type) where
  ring : RecvRing α
  /-- The length asked for by the `FTE_UCS_sendAndRecv` under way, which holds `xSEMLock`. -/
  request : Option Nat
  arrived : List α
  returned : List (List α)
  queue : List α
  expected : List (List α)

inductive Event (α : Type) where
  | arrive (nData : α)
  | clear
  | recv (nBuffLen : Nat)
  | recvLast (nBuffLen : Nat)
  | request (nBuffLen : Nat)
  | answer

namespace Channel

variable {α : Type} (cfg : Config)

def clear (s : Channel α) : Channel α :=
  { s with ring := s.ring.clear, arrived := [], returned := [], queue := [], expected := [] }

/-- A receive of the ring against one of the queue after `k` elements were skipped. -/
def receive (s : Channel α) (result : List α × RecvRing α) (k nBuffLen : Nat) : Channel α :=
  { s with
    ring := result.2
    returned := s.returned ++ [result.1]
    queue := (s.queue.drop k).drop nBuffLen
    expected := s.expected ++ [(s.queue.drop k).take nBuffLen] }

/-- `xSEMRecv` makes every ring operation one step. `FTE_UCS_sendAndRecv` clears, then waits for
its answer until enough bytes are there or its time is up: bytes and clears come in between. -/
def step (s : Channel α) : Event α → Option (Channel α)
  | .arrive nData => some { s with
      ring := s.ring.taskRecv cfg nData
      arrived := s.arrived ++ [nData]
      queue := DropOldest.put (cfg.nRecvBufLen - 1) s.queue nData }
  | .clear => some s.clear
  | .recv nBuffLen =>
    if s.request = none then some (s.receive (s.ring.recv cfg nBuffLen) 0 nBuffLen) else none
  | .recvLast nBuffLen =>
    if s.request = none then
      some (s.receive (s.ring.recvLast cfg nBuffLen) (s.queue.length - nBuffLen) nBuffLen)
    else none
  | .request nBuffLen =>
    if s.request = none then some { s.clear with request := some nBuffLen } else none
  | .answer => match s.request with
    | some nBuffLen =>
      some { s.receive (s.ring.recv cfg nBuffLen) 0 nBuffLen with request := none }
    | none => none

end Channel

/-- The ring holds the queue `q`, from its head on and up to its tail. -/
structure RecvRing.Holds {α : Type} (cfg : Config) (r : RecvRing α) (q : List α) : Prop where
  head_lt : r.nRecvHead < cfg.nRecvBufLen
  count_lt : r.nRecvCount < cfg.nRecvBufLen
  tail_eq : r.nRecvTail = (r.nRecvHead + r.nRecvCount) % cfg.nRecvBufLen
  window_eq : window r.pRecvBuf cfg.nRecvBufLen r.nRecvHead r.nRecvCount = q

namespace RecvRing.Holds

variable {α : Type} {cfg : Config} {r : RecvRing α} {q : List α}

theorem length (h : r.Holds cfg q) : q.length = r.nRecvCount := by
  rw [← h.window_eq, window_length]

theorem taskRecv (h : r.Holds cfg q) (nData : α) :
    (r.taskRecv cfg nData).Holds cfg (DropOldest.put (cfg.nRecvBufLen - 1) q nData) := by
  have hpos := cfg.recv_pos
  have hlt := h.count_lt
  have hput : window (Function.update r.pRecvBuf r.nRecvTail nData) cfg.nRecvBufLen r.nRecvHead
      (r.nRecvCount + 1) = q ++ [nData] := by
    rw [h.tail_eq, window_update hlt, h.window_eq]
  have htail : (r.nRecvTail + 1) % cfg.nRecvBufLen =
      (r.nRecvHead + (r.nRecvCount + 1)) % cfg.nRecvBufLen := by
    rw [h.tail_eq, Nat.mod_add_mod, Nat.add_assoc]
  by_cases hfull : r.nRecvCount + 1 = cfg.nRecvBufLen
  · have hdrop := congrArg (List.drop 1) hput
    rw [RecvRing.taskRecv, if_pos hfull]
    refine ⟨Nat.mod_lt _ hpos, hlt, ?_, ?_⟩
    · dsimp only
      rw [htail, Nat.mod_add_mod, Nat.add_sub_cancel, Nat.add_assoc, Nat.add_comm 1]
    · rw [window_drop (Nat.le_add_left 1 r.nRecvCount), Nat.add_sub_cancel] at hdrop
      rw [DropOldest.put_of_full (by rw [h.length]; omega), ← List.drop_one]
      exact hdrop
  · rw [RecvRing.taskRecv, if_neg hfull]
    refine ⟨h.head_lt, by dsimp only; omega, htail, ?_⟩
    rw [DropOldest.put_of_lt (by rw [h.length]; omega)]
    exact hput

theorem clear (h : r.Holds cfg q) (hc : r.nRecvCount = 0) : r.clear.Holds cfg [] :=
  ⟨h.head_lt, cfg.recv_pos, by rw [RecvRing.clear, h.tail_eq, hc], rfl⟩

theorem skip (h : r.Holds cfg q) (nBuffLen : Nat) :
    (r.skip cfg nBuffLen).Holds cfg (q.drop (q.length - nBuffLen)) := by
  rw [h.length, RecvRing.skip]
  split
  · rename_i hgt
    have hlt := h.count_lt
    refine ⟨Nat.mod_lt _ cfg.recv_pos, hgt.trans hlt, ?_, ?_⟩
    · dsimp only
      rw [h.tail_eq, Nat.mod_add_mod, Nat.add_assoc, Nat.sub_add_cancel hgt.le]
    · rw [← h.window_eq, window_drop (Nat.sub_le _ _), Nat.sub_sub_self hgt.le]
  · rw [show r.nRecvCount - nBuffLen = 0 by omega]
    exact h

theorem copyOut (h : r.Holds cfg q) {nCount : Nat} (hn : nCount ≤ r.nRecvCount) :
    r.copyOut cfg nCount = q.take nCount := by
  have hlt := h.count_lt
  rw [← h.window_eq, window_take, Nat.min_eq_left hn, RecvRing.copyOut]
  split
  · rename_i hs
    exact (window_eq_block hs.le).symm
  · rename_i hs
    exact (window_eq_blocks h.head_lt (Nat.le_of_not_lt hs) (by omega)).symm

theorem recv (h : r.Holds cfg q) (nBuffLen : Nat) :
    (r.recv cfg nBuffLen).1 = q.take nBuffLen ∧ (r.recv cfg nBuffLen).2.Holds cfg (q.drop nBuffLen) := by
  have hlen := h.length
  have hlt := h.count_lt
  rw [RecvRing.recv]
  split
  · rename_i hne
    have hmin : (if nBuffLen > r.nRecvCount then r.nRecvCount else nBuffLen) =
        min nBuffLen r.nRecvCount := by
      split <;> omega
    have hle : min nBuffLen r.nRecvCount ≤ r.nRecvCount := Nat.min_le_right _ _
    simp only [hmin]
    refine ⟨?_, ?_⟩
    · rw [h.copyOut hle, ← hlen, ← List.take_eq_take_min]
    · split
      · rename_i hz
        have hall : q.drop nBuffLen = [] := by
          apply List.drop_eq_nil_of_le
          omega
        rw [hall]
        exact ⟨cfg.recv_pos, by dsimp only; omega, by simp [hz], by simp [hz]⟩
      · have hdrop : q.drop nBuffLen = q.drop (min nBuffLen r.nRecvCount) := by
          rw [← hlen, Nat.min_def]
          split
          · rfl
          · rw [List.drop_length]
            exact List.drop_eq_nil_of_le (by omega)
        refine ⟨Nat.mod_lt _ cfg.recv_pos, by dsimp only; omega, ?_, ?_⟩
        · dsimp only
          rw [h.tail_eq, Nat.mod_add_mod, Nat.add_assoc, Nat.add_sub_of_le hle]
        · rw [hdrop, ← h.window_eq, window_drop hle]
  · rename_i hz
    have hnil : q = [] := List.length_eq_zero_iff.mp (by omega)
    subst hnil
    simpa using h

end RecvRing.Holds

namespace Channel

variable {α : Type} {cfg : Config}

/-- The bytes returned since the last clear are bytes that arrived since, in their order, and they
are those that a queue of the ring's capacity returns. -/
structure Isolated (s : Channel α) : Prop where
  inOrder : s.returned.flatten <+ s.arrived
  asQueued : s.returned = s.expected

/-- The clears, that of a `FTE_UCS_sendAndRecv` included, find the ring empty. -/
def Allowed (s : Channel α) : Event α → Prop
  | .clear | .request _ => s.ring.nRecvCount = 0
  | _ => True

instance (s : Channel α) : DecidablePred (Allowed s) := fun e => by
  cases e <;> (unfold Allowed; infer_instance)

structure Inv (cfg : Config) (s : Channel α) : Prop where
  holds : s.ring.Holds cfg s.queue
  conserved : s.returned.flatten ++ s.queue <+ s.arrived
  asQueued : s.returned = s.expected

/-- `FTE_UCS_create`: the ring is empty, and nothing has arrived. -/
structure Start (s : Channel α) : Prop where
  ring : s.ring.nRecvHead = 0 ∧ s.ring.nRecvTail = 0 ∧ s.ring.nRecvCount = 0
  ghosts : s.arrived = [] ∧ s.returned = [] ∧ s.queue = [] ∧ s.expected = []

theorem Inv.isolated {s : Channel α} (h : Inv cfg s) : Isolated s :=
  ⟨(List.sublist_append_left _ _).trans h.conserved, h.asQueued⟩

theorem Start.inv {s : Channel α} (h : Start s) : Inv cfg s := by
  obtain ⟨⟨hh, ht, hc⟩, ha, hr, hq, he⟩ := h
  refine ⟨⟨?_, ?_, ?_, ?_⟩, ?_, ?_⟩
  · exact hh ▸ cfg.recv_pos
  · exact hc ▸ cfg.recv_pos
  · rw [ht, hh, hc, Nat.zero_mod]
  · rw [hc, hq, window_zero]
  · rw [ha, hr, hq]
    exact List.Sublist.refl _
  · rw [hr, he]

theorem Inv.clear {s : Channel α} (h : Inv cfg s) (hc : s.ring.nRecvCount = 0) : Inv cfg s.clear :=
  ⟨h.holds.clear hc, List.Sublist.refl _, rfl⟩

theorem Inv.receive {s : Channel α} (h : Inv cfg s) {r : RecvRing α} {k : Nat}
    (hr : r.Holds cfg (s.queue.drop k)) (nBuffLen : Nat) :
    Inv cfg (s.receive (r.recv cfg nBuffLen) k nBuffLen) := by
  obtain ⟨hout, hrest⟩ := hr.recv nBuffLen
  refine ⟨hrest, ?_, ?_⟩
  · have hskip : s.returned.flatten ++ s.queue.drop k <+ s.arrived :=
      ((List.Sublist.refl _).append (List.drop_sublist k _)).trans h.conserved
    simp only [Channel.receive, hout, List.flatten_append, List.flatten_singleton]
    rwa [List.append_assoc, List.take_append_drop]
  · simp only [Channel.receive, hout, h.asQueued]

theorem inv_step {s s' : Channel α} {e : Event α} (h : Inv cfg s) (ha : Allowed s e)
    (hs : s.step cfg e = some s') : Inv cfg s' := by
  cases e with
  | arrive nData =>
    cases hs
    refine ⟨h.holds.taskRecv nData, ?_, h.asQueued⟩
    have hq : DropOldest.put (cfg.nRecvBufLen - 1) s.queue nData <+ s.queue ++ [nData] :=
      List.drop_sublist _ _
    refine ((List.Sublist.refl _).append hq).trans ?_
    rw [← List.append_assoc]
    exact h.conserved.append (List.Sublist.refl _)
  | clear =>
    cases hs
    exact h.clear ha
  | recv nBuffLen =>
    simp only [step, Option.ite_none_right_eq_some, Option.some.injEq] at hs
    exact hs.2 ▸ h.receive (k := 0) h.holds nBuffLen
  | recvLast nBuffLen =>
    simp only [step, Option.ite_none_right_eq_some, Option.some.injEq] at hs
    exact hs.2 ▸ h.receive (h.holds.skip nBuffLen) nBuffLen
  | request nBuffLen =>
    simp only [step, Option.ite_none_right_eq_some, Option.some.injEq] at hs
    obtain ⟨-, rfl⟩ := hs
    obtain ⟨hh, hc, hq⟩ := h.clear ha
    exact ⟨hh, hc, hq⟩
  | answer =>
    cases hreq : s.request with
    | none => simp [step, hreq] at hs
    | some nBuffLen =>
      simp only [step, hreq, Option.some.injEq] at hs
      subst hs
      obtain ⟨hh, hc, hq⟩ := h.receive (k := 0) h.holds nBuffLen
      exact ⟨hh, hc, hq⟩

/-- In every run whose clears find the ring empty, what is returned after a clear arrived after it. -/
theorem isolated_of_allowed {s u : Channel α} {es : List (Event α)} (hs : Start s)
    (ha : ∀ v e, Takes (step cfg) s es v e → Allowed v e) (hu : Visits (step cfg) s es u) :
    Isolated u :=
  (inv_of_takes hs.inv (fun _ _ _ => inv_step) ha hu).isolated

def created : Channel UInt8 := ⟨⟨fun _ => 0, 0, 0, 0⟩, none, [], [], [], []⟩

/-- Two bytes wait at a clear: the answer to the next request starts with the first of them. -/
theorem stale_byte_returned :
    ∃ u, exec (step product) [.arrive 65, .arrive 66, .request 1, .arrive 67, .answer] created = some u ∧
      u.arrived = [67] ∧ u.returned = [[65]] ∧ ¬ Isolated u := by
  refine ⟨_, rfl, rfl, rfl, fun h => ?_⟩
  have ho := h.inOrder
  revert ho
  decide

theorem isolated_after_empty :
    ∃ u, exec (step product) [.arrive 65, .recv 8, .request 1, .arrive 67, .answer] created = some u ∧
      u.returned = [[67]] ∧ Isolated u := by
  obtain ⟨u, hu, hr⟩ : ∃ u, exec (step product) [.arrive 65, .recv 8, .request 1, .arrive 67, .answer]
      created = some u ∧ u.returned = [[67]] := ⟨_, rfl, rfl⟩
  exact ⟨u, hu, hr, isolated_of_allowed (s := created) ⟨⟨rfl, rfl, rfl⟩, rfl, rfl, rfl, rfl⟩
    (takes_of_along (by decide)) ⟨_, List.prefix_rfl, hu⟩⟩

end Channel

end EdgeNode.Ucs
