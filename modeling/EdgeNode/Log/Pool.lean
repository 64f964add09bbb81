import EdgeNode.Lib.Ring

/-! The pool of log records in memory, and the bounded queue of records it stands for. -/

namespace EdgeNode.Log

structure TimeStamp where
  seconds : UInt32
  milliseconds : UInt32
  deriving DecidableEq

/-- The union `xParam`, by the words of `xEvent`: `xSystem.xMsg` lies over `ulEPID`. -/
structure Param where
  ulEPID : UInt32
  ulLevel : UInt32
  ulType : UInt32
  ulValue : UInt32
  deriving DecidableEq

inductive LogType where
  | system
  | event
  deriving DecidableEq

structure FteLog where
  xType : LogType
  xTimeStamp : TimeStamp
  xParam : Param
  deriving DecidableEq

/-- `FTE_LOG_POOL` without the `ulCRC` before it. -/
structure Pool where
  ulTag : UInt32
  ulID : UInt32
  ulCount : Nat
  ulHead : Nat
  ulTail : Nat
  pLogs : Nat → FteLog

def maxLogCount : Nat := (0x1000 - 4 * 6) / 28
def logTag : UInt32 := 0x12345678

def zeroLog : FteLog := ⟨.system, ⟨0, 0⟩, ⟨0, 0, 0, 0⟩⟩

/-- The pool after the `memset` of `FTE_LOG_init`. -/
def zeroPool : Pool := ⟨0, 0, 0, 0, 0, fun _ => zeroLog⟩

def store (p : Pool) (x : FteLog) : Pool :=
  let pLogs := Function.update p.pLogs p.ulTail x
  let ulTail := (p.ulTail + 1) % maxLogCount
  if p.ulCount + 1 ≥ maxLogCount then
    { p with
      pLogs, ulTail, ulHead := (p.ulHead + 1) % maxLogCount, ulCount := maxLogCount - 1 }
  else
    { p with pLogs, ulTail, ulCount := p.ulCount + 1 }

/-- The record `FTE_LOG_addSystem` fills in: of the union only the message is written. -/
def systemLog (p : Pool) (t : TimeStamp) (xMsg : UInt32) : FteLog :=
  ⟨.system, t, { (p.pLogs p.ulTail).xParam with ulEPID := xMsg }⟩

def eventLog (t : TimeStamp) (nOID ulLevel xType ulValue : UInt32) : FteLog :=
  ⟨.event, t, ⟨nOID, ulLevel, xType, ulValue⟩⟩

def addSystem (p : Pool) (t : TimeStamp) (xMsg : UInt32) : Pool := store p (systemLog p t xMsg)

def addEvent (p : Pool) (t : TimeStamp) (nOID ulLevel xType ulValue : UInt32) : Pool :=
  store p (eventLog t nOID ulLevel xType ulValue)

def del (p : Pool) (ulCount : Nat) : Pool × Nat :=
  if ulCount ≥ p.ulCount then
    ({ p with ulHead := p.ulTail, ulCount := 0 }, p.ulCount)
  else
    ({ p with
      ulHead := (p.ulHead + ulCount) % maxLogCount, ulCount := p.ulCount - ulCount }, ulCount)

def getAt (p : Pool) (nIndex : Nat) : Option FteLog :=
  if p.ulCount ≤ 0 ∨ p.ulCount ≤ nIndex then none
  else some (p.pLogs ((p.ulHead + nIndex) % maxLogCount))

def records (p : Pool) : List FteLog := Ring.window p.pLogs maxLogCount p.ulHead p.ulCount

theorem maxLogCount_eq : maxLogCount = 145 := rfl

@[simp] theorem records_length (p : Pool) : (records p).length = p.ulCount := Ring.window_length

@[simp] theorem records_zeroPool : records zeroPool = [] := rfl

theorem getAt_eq_getElem? (p : Pool) (n : Nat) : getAt p n = (records p)[n]? := by
  by_cases h : p.ulCount ≤ n
  · rw [getAt, if_pos (Or.inr h), List.getElem?_eq_none (by simpa using h)]
  · have hn : n < p.ulCount := Nat.lt_of_not_le h
    rw [getAt, if_neg (by omega)]
    simp [records, Ring.window, hn]

/-- What `FTE_LOG_count` and `FTE_LOG_getAt` show is the list of records, and no more. -/
theorem records_eq_iff {p q : Pool} :
    records p = records q ↔ p.ulCount = q.ulCount ∧ ∀ n, getAt p n = getAt q n := by
  simp only [getAt_eq_getElem?]
  constructor
  · intro h
    have hl := congrArg List.length h
    rw [records_length, records_length] at hl
    exact ⟨hl, fun n => by rw [h]⟩
  · rintro ⟨-, h⟩
    exact List.ext_getElem? h

/-- The indices of a pool are those of a circular buffer with one cell always free. -/
structure Sound (p : Pool) : Prop where
  count_lt : p.ulCount < maxLogCount
  head_lt : p.ulHead < maxLogCount
  tail_eq : p.ulTail = (p.ulHead + p.ulCount) % maxLogCount

theorem sound_zeroPool : Sound zeroPool := ⟨by decide, by decide, rfl⟩

section Queue

/-- A new record pushes the oldest one out of a full log. -/
def push (l : List FteLog) (x : FteLog) : List FteLog :=
  if l.length + 1 ≥ maxLogCount then l.tail ++ [x] else l ++ [x]

theorem Sound.store {p : Pool} (h : Sound p) (x : FteLog) : Sound (store p x) := by
  have hc := h.count_lt
  have hh := h.head_lt
  have ht := h.tail_eq
  rw [maxLogCount_eq] at hc hh ht
  by_cases hf : p.ulCount + 1 ≥ maxLogCount
  · simp only [Log.store, if_pos hf]
    constructor <;> simp only [maxLogCount_eq] at hf ⊢ <;> omega
  · simp only [Log.store, if_neg hf]
    constructor <;> simp only [maxLogCount_eq] at hf ⊢ <;> omega

theorem Sound.del {p : Pool} (h : Sound p) (n : Nat) : Sound (del p n).1 := by
  have hc := h.count_lt
  have hh := h.head_lt
  have ht := h.tail_eq
  rw [maxLogCount_eq] at hc hh ht
  rw [Log.del]
  split
  next => constructor <;> simp only [maxLogCount_eq] <;> omega
  next => constructor <;> simp only [maxLogCount_eq] <;> omega

theorem records_store {p : Pool} (h : Sound p) (x : FteLog) :
    records (store p x) = push (records p) x := by
  have hw : Ring.window (Function.update p.pLogs p.ulTail x) maxLogCount p.ulHead (p.ulCount + 1) =
      records p ++ [x] := by
    rw [h.tail_eq]
    exact Ring.window_update h.count_lt x
  rw [push, records_length]
  by_cases hf : p.ulCount + 1 ≥ maxLogCount
  · have hc : p.ulCount + 1 = maxLogCount := by
      have := h.count_lt
      omega
    have hne : records p ≠ [] := by
      rw [← List.length_pos_iff, records_length]
      rw [maxLogCount_eq] at hc
      omega
    rw [if_pos hf, ← List.tail_append_of_ne_nil hne, ← hw, ← List.drop_one,
      Ring.window_drop (Nat.le_add_left 1 p.ulCount)]
    simp only [Log.store, if_pos hf, records]
    rw [← hc]
  · rw [if_neg hf, ← hw]
    simp only [Log.store, if_neg hf, records]

theorem records_del {p : Pool} (n : Nat) : records (del p n).1 = (records p).drop n := by
  rw [del]
  split
  next h =>
    rw [List.drop_eq_nil_of_le (by simpa using h)]
    rfl
  next h => exact (Ring.window_drop (Nat.le_of_not_le h)).symm

theorem del_count (p : Pool) (n : Nat) : (del p n).2 = min n p.ulCount := by
  rw [del]
  split <;> dsimp only <;> omega

end Queue

end EdgeNode.Log
