import EdgeNode.Ucs.Receive

/-! The send buffer of a serial channel: `FTE_UCS_send` fills it, and the sending task drains it
into the UART by writes that may each take less than they are offered. -/

namespace EdgeNode.Ucs

open Ring Runs
open scoped List

def wordSub (a b : Nat) : Nat := (a + 2 ^ 32 - b) % 2 ^ 32

/-- The send side of `FTE_UCS`. `pSendBuf` is the memory from the buffer on, past its end as well. -/
structure SendBuffer (α : Type) where
  pSendBuf : Nat → α
  nSendHead : Nat
  nSendTail : Nat
  nSendCount : Nat

/-- The sending channel. As ghosts: the writes that the drain under way has made, the bytes that the
UART took, those that `FTE_UCS_send` accepted, and every stretch of the buffer that was accessed. -/
structure Sender (α : Type) where
  buffer : SendBuffer α
  /-- The count of `xSEMSendNotEmtry`. -/
  nSendNotEmpty : Nat
  /-- The sending task holds `xSEMSend`. -/
  draining : Bool
  writes : Nat
  handed : List α
  accepted : List α
  accesses : List (Nat × Nat)

inductive SendEvent (α : Type) where
  | send (pBuff : List α)
  | drain
  | fwrite (nWrittenCount : Nat)
  | finish

namespace Sender

variable {α : Type} (cfg : Config)

/-- The `nCount` of `_FTE_UCS_send`. -/
def acceptCount (b : SendBuffer α) (nBuffLen : Nat) : Nat :=
  if nBuffLen > cfg.nSendBufLen - b.nSendCount - 1 then cfg.nSendBufLen - b.nSendCount - 1
  else nBuffLen

/-- The copies of `_FTE_UCS_send`, each with the cells it fills. The second branch measures the
room up to the end by the length of the other buffer. -/
def copyIn (b : SendBuffer α) (pBuff : List α) (nCount : Nat) : (Nat → α) × List (Nat × Nat) :=
  if b.nSendTail + nCount < cfg.nSendBufLen then
    (store b.pSendBuf b.nSendTail (pBuff.take nCount), [(b.nSendTail, nCount)])
  else
    let nTailCount := wordSub cfg.nRecvBufLen b.nSendTail
    (store (store b.pSendBuf b.nSendTail (pBuff.take nTailCount)) 0
        ((pBuff.drop nTailCount).take (wordSub nCount nTailCount)),
      [(b.nSendTail, nTailCount), (0, wordSub nCount nTailCount)])

def send (s : Sender α) (pBuff : List α) : Sender α :=
  let nCount := acceptCount cfg s.buffer pBuff.length
  let copied := copyIn cfg s.buffer pBuff nCount
  { s with
    buffer := { s.buffer with
      pSendBuf := copied.1
      nSendTail := (s.buffer.nSendTail + nCount) % cfg.nSendBufLen
      nSendCount := s.buffer.nSendCount + nCount }
    nSendNotEmpty := s.nSendNotEmpty + 1
    accepted := s.accepted ++ pBuff.take nCount
    accesses := s.accesses ++ copied.2 }

/-- The length that `FTE_UCS_TASK_send` offers to `fwrite`. -/
def offered (b : SendBuffer α) : Nat :=
  if (b.nSendHead + b.nSendCount) % 2 ^ 32 ≤ cfg.nSendBufLen then b.nSendCount
  else wordSub cfg.nSendBufLen b.nSendHead

/-- One turn of the drain, where `fwrite` takes `nWrittenCount` bytes. The head is added to itself. -/
def fwrite (s : Sender α) (nWrittenCount : Nat) : Sender α :=
  let b := s.buffer
  { s with
    buffer := { b with
      nSendHead := (b.nSendHead + (b.nSendHead + nWrittenCount) % 2 ^ 32 % cfg.nSendBufLen) % 2 ^ 32
      nSendCount := wordSub b.nSendCount nWrittenCount }
    writes := s.writes + 1
    handed := s.handed ++ block b.pSendBuf b.nSendHead nWrittenCount
    accesses := s.accesses ++ [(b.nSendHead, offered cfg b)] }

/-- `xSEMSend` keeps sends and drains apart; a drain waits for `xSEMSendNotEmtry` first. -/
def step (s : Sender α) : SendEvent α → Option (Sender α)
  | .send pBuff => if s.draining then none else some (s.send cfg pBuff)
  | .drain =>
    if s.draining ∨ s.nSendNotEmpty = 0 then none
    else some { s with draining := true, nSendNotEmpty := s.nSendNotEmpty - 1 }
  | .fwrite nWrittenCount =>
    if s.draining ∧ s.buffer.nSendCount ≠ 0 ∧ 0 < nWrittenCount ∧
        nWrittenCount ≤ offered cfg s.buffer then
      some (s.fwrite cfg nWrittenCount)
    else none
  | .finish =>
    if s.draining ∧ s.buffer.nSendCount = 0 then
      some { s with
        buffer := { s.buffer with nSendHead := 0, nSendTail := 0 }
        draining := false
        writes := 0 }
    else none

/-- What the UART took is what was accepted, once and in order, up to what still counts as waiting,
and no access left the buffer. -/
structure Ordered (s : Sender α) : Prop where
  handed : s.handed <+: s.accepted
  count : s.handed.length + s.buffer.nSendCount = s.accepted.length
  inBuffer : ∀ a ∈ s.accesses, a.1 + a.2 ≤ cfg.nSendBufLen

/-- No drain makes a third write. -/
def Allowed (s : Sender α) : SendEvent α → Prop
  | .fwrite _ => s.writes < 2
  | _ => True

instance (s : Sender α) : DecidablePred (Allowed s) := fun e => by
  cases e <;> (unfold Allowed; infer_instance)

/-- The head is right up to the second write of a drain. -/
structure Inv (s : Sender α) : Prop where
  ordered : s.Ordered cfg
  idle : s.draining = false → s.writes = 0 ∧ s.buffer.nSendTail = s.buffer.nSendCount
  first : s.writes = 0 → s.buffer.nSendHead = 0
  room : s.writes < 2 → s.buffer.nSendHead + s.buffer.nSendCount < cfg.nSendBufLen
  waiting : s.writes < 2 → block s.buffer.pSendBuf s.buffer.nSendHead s.buffer.nSendCount =
    s.accepted.drop s.handed.length

structure Start (s : Sender α) : Prop where
  indices : s.buffer.nSendHead = 0 ∧ s.buffer.nSendTail = 0 ∧ s.buffer.nSendCount = 0
  idle : s.draining = false ∧ s.writes = 0
  ghosts : s.handed = [] ∧ s.accepted = [] ∧ s.accesses = []

variable {cfg}

theorem Start.inv {s : Sender α} (h : Start s) : Inv cfg s := by
  obtain ⟨⟨hh, ht, hc⟩, ⟨hd, hw⟩, hn, ha, hx⟩ := h
  refine ⟨⟨?_, ?_, ?_⟩, fun _ => ⟨hw, ht.trans hc.symm⟩, fun _ => hh, fun _ => ?_, fun _ => ?_⟩
  · rw [hn]
    exact List.nil_prefix
  · simp [hn, ha, hc]
  · simp [hx]
  · rw [hh, hc]
    exact cfg.send_pos
  · rw [hc, hn, ha]
    rfl

theorem wordSub_of_le {a b : Nat} (h : b ≤ a) (ha : a < 2 ^ 32) : wordSub a b = a - b := by
  unfold wordSub
  omega

/-- Between two drains the bytes lie at the start of the buffer, so the first copy is taken. -/
theorem Inv.send {s : Sender α} (h : Inv cfg s) (hidle : s.draining = false) (pBuff : List α) :
    Inv cfg (s.send cfg pBuff) := by
  obtain ⟨hw, ht⟩ := h.idle hidle
  have hh := h.first hw
  have hroom := h.room (by omega)
  have hwait := h.waiting (by omega)
  rw [hh, Nat.zero_add] at hroom
  rw [hh] at hwait
  have hn : acceptCount cfg s.buffer pBuff.length + s.buffer.nSendCount < cfg.nSendBufLen := by
    unfold acceptCount
    split <;> omega
  have hle : acceptCount cfg s.buffer pBuff.length ≤ pBuff.length := by
    unfold acceptCount
    split <;> omega
  generalize hcount : acceptCount cfg s.buffer pBuff.length = nCount at hn hle
  have hlen : (pBuff.take nCount).length = nCount := by
    rw [List.length_take, Nat.min_eq_left hle]
  have hcopy : copyIn cfg s.buffer pBuff nCount =
      (store s.buffer.pSendBuf s.buffer.nSendCount (pBuff.take nCount),
        [(s.buffer.nSendCount, nCount)]) := by
    rw [copyIn, ht, if_pos (by omega)]
  simp only [Sender.send, hcount, hcopy]
  refine ⟨⟨?_, ?_, ?_⟩, fun _ => ⟨hw, ?_⟩, fun _ => hh, fun _ => ?_, fun _ => ?_⟩
  · exact h.ordered.handed.trans (List.prefix_append _ _)
  · simp only [List.length_append, hlen, ← h.ordered.count, Nat.add_assoc]
  · intro a ha
    rcases List.mem_append.mp ha with ha | ha
    · exact h.ordered.inBuffer a ha
    · cases List.mem_singleton.mp ha
      dsimp only
      omega
  · dsimp only
    rw [ht, Nat.mod_eq_of_lt (by omega)]
  · dsimp only
    omega
  · have hpre := h.ordered.count
    have happ := block_store_append (m := s.buffer.pSendBuf) 0 s.buffer.nSendCount (pBuff.take nCount)
    rw [hlen, Nat.zero_add, hwait] at happ
    dsimp only
    rw [hh, happ, List.drop_append_of_le_length (by omega)]

theorem offered_of_room {b : SendBuffer α} (h : b.nSendHead + b.nSendCount < cfg.nSendBufLen) :
    offered cfg b = b.nSendCount := by
  have hle := cfg.send_le
  rw [offered, Nat.mod_eq_of_lt (by omega), if_pos (by omega)]

/-- A write of a drain takes the bytes at the head; after the first one the head is right. -/
theorem Inv.fwrite {s : Sender α} (h : Inv cfg s) (hdrain : s.draining = true) (hw : s.writes < 2)
    {n : Nat} (hn : n ≤ offered cfg s.buffer) : Inv cfg (s.fwrite cfg n) := by
  have hlen := cfg.send_le
  have hroom := h.room hw
  have hwait := h.waiting hw
  have hoff := offered_of_room hroom
  rw [hoff] at hn
  have hcount := h.ordered.count
  have hsub := wordSub_of_le hn (by omega)
  obtain ⟨rest, hrest⟩ := Nat.exists_eq_add_of_le hn
  have htaken : block s.buffer.pSendBuf s.buffer.nSendHead n =
      (s.accepted.drop s.handed.length).take n := by
    rw [← hwait, block_take, Nat.min_eq_left hn]
  have hhead : s.writes = 0 → (s.fwrite cfg n).buffer.nSendHead = n := by
    intro hz
    simp only [Sender.fwrite, h.first hz, Nat.zero_add]
    rw [Nat.mod_eq_of_lt (a := n) (by omega), Nat.mod_eq_of_lt (a := n) (by omega),
      Nat.mod_eq_of_lt (by omega)]
  have hzero : (s.fwrite cfg n).writes < 2 → s.writes = 0 := by
    intro hlt
    simp only [Sender.fwrite] at hlt
    omega
  have hall : s.handed ++ s.accepted.drop s.handed.length = s.accepted :=
    List.prefix_iff_eq_append.mp h.ordered.handed
  refine ⟨⟨?_, ?_, ?_⟩, fun hd => ?_, fun hz => ?_, fun hlt => ?_, fun hlt => ?_⟩
  · simp only [Sender.fwrite, htaken]
    conv => rhs; rw [← hall]
    exact List.prefix_append_right_inj _ |>.mpr (List.take_prefix _ _)
  · simp only [Sender.fwrite, List.length_append, block_length, hsub]
    omega
  · intro a ha
    rcases List.mem_append.mp ha with ha | ha
    · exact h.ordered.inBuffer a ha
    · cases List.mem_singleton.mp ha
      dsimp only
      omega
  · exact absurd hd (by simp [Sender.fwrite, hdrain])
  · simp [Sender.fwrite] at hz
  · rw [hhead (hzero hlt)]
    have hz := h.first (hzero hlt)
    simp only [Sender.fwrite, hsub]
    omega
  · rw [hhead (hzero hlt)]
    have hz := h.first (hzero hlt)
    rw [hz, hrest, block_append, Nat.zero_add] at hwait
    have hdrop : (block s.buffer.pSendBuf 0 n ++ block s.buffer.pSendBuf n rest).drop n =
        block s.buffer.pSendBuf n rest := List.drop_left' (block_length 0 n)
    rw [hwait, List.drop_drop] at hdrop
    simp only [Sender.fwrite, hsub, List.length_append, block_length]
    rw [hdrop, hrest, Nat.add_sub_cancel_left]

theorem inv_step {s s' : Sender α} {e : SendEvent α} (h : Inv cfg s) (ha : Allowed s e)
    (hs : s.step cfg e = some s') : Inv cfg s' := by
  cases e with
  | send pBuff =>
    simp only [step, Option.ite_none_left_eq_some, Option.some.injEq, Bool.not_eq_true] at hs
    exact hs.2 ▸ h.send hs.1 pBuff
  | drain =>
    simp only [step, Option.ite_none_left_eq_some, Option.some.injEq] at hs
    obtain ⟨-, rfl⟩ := hs
    exact ⟨⟨h.ordered.handed, h.ordered.count, h.ordered.inBuffer⟩,
      fun hd => absurd hd (by simp), h.first, h.room, h.waiting⟩
  | fwrite n =>
    simp only [step, Option.ite_none_right_eq_some, Option.some.injEq] at hs
    obtain ⟨⟨hdrain, -, -, hn⟩, rfl⟩ := hs
    exact h.fwrite hdrain ha hn
  | finish =>
    simp only [step, Option.ite_none_right_eq_some, Option.some.injEq] at hs
    obtain ⟨⟨hdrain, hc⟩, rfl⟩ := hs
    have hcount := h.ordered.count
    refine ⟨⟨h.ordered.handed, hcount, h.ordered.inBuffer⟩, fun _ => ⟨rfl, hc.symm⟩, fun _ => rfl,
      fun _ => ?_, fun _ => ?_⟩
    · dsimp only
      rw [hc]
      exact cfg.send_pos
    · dsimp only
      rw [hc, List.drop_eq_nil_of_le (by omega)]
      rfl

/-- In every run whose drains make at most two writes each, the UART takes the accepted bytes. -/
theorem ordered_of_allowed {s u : Sender α} {es : List (SendEvent α)} (hs : Start s)
    (ha : ∀ v e, Takes (step cfg) s es v e → Allowed v e) (hu : Visits (step cfg) s es u) :
    Ordered cfg u :=
  (inv_of_takes hs.inv (fun _ _ _ => inv_step) ha hu).ordered

def created : Sender UInt8 := ⟨⟨fun _ => 0, 0, 0, 0⟩, 0, false, 0, [], [], []⟩

/-- The third write of a drain starts one byte late. -/
theorem third_write_skips :
    ∃ u, exec (step product) [.send [65, 66, 67, 68], .drain, .fwrite 1, .fwrite 1, .fwrite 1]
        created = some u ∧ u.handed = [65, 66, 68] ∧ ¬ Ordered product u := by
  refine ⟨_, rfl, rfl, fun h => ?_⟩
  have ho := h.handed
  revert ho
  decide

theorem two_writes_ordered :
    ∃ u, exec (step product) [.send [65, 66, 67, 68], .drain, .fwrite 1, .fwrite 3, .finish]
        created = some u ∧ u.handed = [65, 66, 67, 68] ∧ Ordered product u := by
  obtain ⟨u, hu, hh⟩ : ∃ u, exec (step product) [.send [65, 66, 67, 68], .drain, .fwrite 1,
      .fwrite 3, .finish] created = some u ∧ u.handed = [65, 66, 67, 68] := ⟨_, rfl, rfl⟩
  exact ⟨u, hu, hh, ordered_of_allowed (s := created) ⟨⟨rfl, rfl, rfl⟩, ⟨rfl, rfl⟩, rfl, rfl, rfl⟩
    (takes_of_along (by decide)) ⟨_, List.prefix_rfl, hu⟩⟩

end Sender

end EdgeNode.Ucs
