import EdgeNode.Lib.DropOldest
import EdgeNode.Lib.Refinement
import EdgeNode.Ucs.Receive

/-! The receive ring as a queue that drops its oldest byte for a new one, and where the copies out
of it read and write. -/

namespace EdgeNode.Ucs

open Ring Refinement

/-- A `memcpy` from the ring to the buffer of the caller: `count` elements from index to index. -/
structure Copy where
  dst : Nat
  src : Nat
  count : Nat

namespace RecvRing

variable {α : Type} (cfg : Config)

/-- The copies of `_FTE_UCS_recv` for `nCount` elements. -/
def copies (r : RecvRing α) (nCount : Nat) : List Copy :=
  if r.nRecvHead + nCount < cfg.nRecvBufLen then [⟨0, r.nRecvHead, nCount⟩]
  else
    let nTailCount := cfg.nRecvBufLen - r.nRecvHead
    [⟨0, r.nRecvHead, nTailCount⟩, ⟨nTailCount, 0, nCount - nTailCount⟩]

/-- The copies of a call of `_FTE_UCS_recv`, which copies nothing from an empty ring. -/
def recvCopies (r : RecvRing α) (nBuffLen : Nat) : List Copy :=
  if r.nRecvCount ≠ 0 then
    r.copies cfg (if nBuffLen > r.nRecvCount then r.nRecvCount else nBuffLen)
  else []

/-- What the copies leave of the buffer `pBuff`. -/
def copied (pRecvBuf : Nat → α) (cs : List Copy) (pBuff : Nat → α) : Nat → α :=
  cs.foldl (fun pBuff c => store pBuff c.dst (block pRecvBuf c.src c.count)) pBuff

/-- The copy stays in the ring, and in a destination of `nBuffLen` elements. -/
def Copy.Inside (nBuffLen : Nat) (c : Copy) : Prop :=
  c.src + c.count ≤ cfg.nRecvBufLen ∧ c.dst + c.count ≤ nBuffLen

variable {cfg} {r : RecvRing α} {q : List α}

/-- The elements that `_FTE_UCS_recv` returns are those that its copies put at the start of the
destination. -/
theorem block_copied (r : RecvRing α) (nCount : Nat) (pBuff : Nat → α) :
    block (copied r.pRecvBuf (r.copies cfg nCount) pBuff) 0 nCount = r.copyOut cfg nCount := by
  rw [copies, copyOut]
  split
  next =>
    have hself := block_store_self (m := pBuff) 0 (block r.pRecvBuf r.nRecvHead nCount)
    rwa [block_length] at hself
  next hwrap =>
    obtain ⟨nRest, hn⟩ := Nat.exists_eq_add_of_le (by omega : cfg.nRecvBufLen - r.nRecvHead ≤ nCount)
    have happ := block_store_append
      (m := store pBuff 0 (block r.pRecvBuf r.nRecvHead (cfg.nRecvBufLen - r.nRecvHead)))
      0 (cfg.nRecvBufLen - r.nRecvHead) (block r.pRecvBuf 0 nRest)
    have hself := block_store_self (m := pBuff) 0
      (block r.pRecvBuf r.nRecvHead (cfg.nRecvBufLen - r.nRecvHead))
    rw [block_length] at happ hself
    rw [hself, Nat.zero_add] at happ
    dsimp only
    rw [hn, Nat.add_sub_cancel_left]
    exact happ

theorem Holds.copies_inside (h : r.Holds cfg q) {nCount nBuffLen : Nat} (hc : nCount ≤ r.nRecvCount)
    (hb : nCount ≤ nBuffLen) : ∀ c ∈ r.copies cfg nCount, Copy.Inside cfg nBuffLen c := by
  have hh := h.head_lt
  have hlt := h.count_lt
  intro c hmem
  rw [copies] at hmem
  split at hmem
  next =>
    rw [List.mem_singleton] at hmem
    subst hmem
    constructor <;> dsimp only <;> omega
  next =>
    rcases List.mem_pair.mp hmem with rfl | rfl
    · constructor <;> dsimp only <;> omega
    · constructor <;> dsimp only <;> omega

theorem Holds.recvCopies_inside (h : r.Holds cfg q) (nBuffLen : Nat) :
    ∀ c ∈ r.recvCopies cfg nBuffLen, Copy.Inside cfg nBuffLen c := by
  rw [recvCopies]
  split
  next =>
    split
    next hgt => exact h.copies_inside (Nat.le_refl _) hgt.le
    next hle => exact h.copies_inside (Nat.le_of_not_lt hle) (Nat.le_refl _)
  next => simp

end RecvRing

inductive RecvCall (α : Type) where
  | arrive (nData : α)
  | recv (nBuffLen : Nat)
  | recvLast (nBuffLen : Nat)

namespace RecvCall

variable {α : Type} (cfg : Config)

/-- A byte that `FTE_UCS_TASK_recv` reads, or a call with the bytes that it returns. -/
def run (r : RecvRing α) : RecvCall α → List α × RecvRing α
  | .arrive nData => ([], r.taskRecv cfg nData)
  | .recv nBuffLen => r.recv cfg nBuffLen
  | .recvLast nBuffLen => r.recvLast cfg nBuffLen

/-- The same on the queue of the bytes, the oldest one first. -/
def queueRun (q : List α) : RecvCall α → List α × List α
  | .arrive nData => ([], DropOldest.put (cfg.nRecvBufLen - 1) q nData)
  | .recv nBuffLen => (q.take nBuffLen, q.drop nBuffLen)
  | .recvLast nBuffLen =>
    let newest := q.drop (q.length - nBuffLen)
    (newest.take nBuffLen, newest.drop nBuffLen)

/-- Nothing outside the ring or the destination is read or written. -/
def Inside (r : RecvRing α) : RecvCall α → Prop
  | .arrive _ => r.nRecvTail < cfg.nRecvBufLen
  | .recv nBuffLen => ∀ c ∈ r.recvCopies cfg nBuffLen, RecvRing.Copy.Inside cfg nBuffLen c
  | .recvLast nBuffLen =>
    ∀ c ∈ (r.skip cfg nBuffLen).recvCopies cfg nBuffLen, RecvRing.Copy.Inside cfg nBuffLen c

variable {cfg} {r : RecvRing α} {q : List α}

theorem simulates :
    Simulates (run cfg) (queueRun cfg) (fun (r : RecvRing α) q => r.Holds cfg q) where
  answer r q c h := by
    cases c with
    | arrive nData => rfl
    | recv nBuffLen => exact (h.recv nBuffLen).1
    | recvLast nBuffLen => exact ((h.skip nBuffLen).recv nBuffLen).1
  next r q c h := by
    cases c with
    | arrive nData => exact h.taskRecv nData
    | recv nBuffLen => exact (h.recv nBuffLen).2
    | recvLast nBuffLen => exact ((h.skip nBuffLen).recv nBuffLen).2

theorem inside_of_holds (h : r.Holds cfg q) (c : RecvCall α) : c.Inside cfg r := by
  cases c with
  | arrive nData =>
    change r.nRecvTail < cfg.nRecvBufLen
    rw [h.tail_eq]
    exact Nat.mod_lt _ cfg.recv_pos
  | recv nBuffLen => exact h.recvCopies_inside nBuffLen
  | recvLast nBuffLen => exact (h.skip nBuffLen).recvCopies_inside nBuffLen

/-- The ring of `FTE_UCS_create`. -/
def created (pRecvBuf : Nat → α) : RecvRing α := ⟨pRecvBuf, 0, 0, 0⟩

theorem holds_created (pRecvBuf : Nat → α) : (created pRecvBuf).Holds cfg [] :=
  ⟨cfg.recv_pos, cfg.recv_pos, (Nat.zero_mod _).symm, rfl⟩

/-- In every run of arrivals and receives the calls return what the queue of one byte less than the
ring returns, the ring holds the queue, and no call leaves the ring or its destination. -/
theorem ring_refines_queue (cfg : Config) (pRecvBuf : Nat → α) (calls : List (RecvCall α)) :
    answers (run cfg) calls (created pRecvBuf) = answers (queueRun cfg) calls [] ∧
      (behind (run cfg) calls (created pRecvBuf)).Holds cfg (behind (queueRun cfg) calls []) ∧
      ∀ c : RecvCall α, c.Inside cfg (behind (run cfg) calls (created pRecvBuf)) := by
  have hstart : (created pRecvBuf).Holds cfg [] := holds_created pRecvBuf
  have h := simulates.behind hstart calls
  exact ⟨simulates.answers hstart calls, h, inside_of_holds h⟩

end RecvCall

end EdgeNode.Ucs
