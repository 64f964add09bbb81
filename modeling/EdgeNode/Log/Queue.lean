import EdgeNode.Lib.DropOldest
import EdgeNode.Lib.Refinement
import EdgeNode.Log.Pool

/-! The log in memory as a queue that drops its oldest record for a new one. -/

namespace EdgeNode.Log

open DropOldest Refinement

/-- What a record says: of a system record the union holds the message only. -/
inductive Entry where
  | system (t : TimeStamp) (xMsg : UInt32)
  | event (t : TimeStamp) (nOID ulLevel xType ulValue : UInt32)
  deriving DecidableEq

def entry (x : FteLog) : Entry :=
  match x.xType with
  | .system => .system x.xTimeStamp x.xParam.ulEPID
  | .event => .event x.xTimeStamp x.xParam.ulEPID x.xParam.ulLevel x.xParam.ulType x.xParam.ulValue

@[simp] theorem entry_systemLog (p : Pool) (t : TimeStamp) (xMsg : UInt32) :
    entry (systemLog p t xMsg) = .system t xMsg := rfl

@[simp] theorem entry_eventLog (t : TimeStamp) (nOID ulLevel xType ulValue : UInt32) :
    entry (eventLog t nOID ulLevel xType ulValue) = .event t nOID ulLevel xType ulValue := rfl

inductive Call where
  | addSystem (t : TimeStamp) (xMsg : UInt32)
  | addEvent (t : TimeStamp) (nOID ulLevel xType ulValue : UInt32)
  | del (ulCount : Nat)

/-- A call with what it returns: `FTE_RET_OK`, or the number of records deleted. -/
def call (p : Pool) : Call → Nat × Pool
  | .addSystem t xMsg => (0, addSystem p t xMsg)
  | .addEvent t nOID ulLevel xType ulValue => (0, addEvent p t nOID ulLevel xType ulValue)
  | .del ulCount => ((del p ulCount).2, (del p ulCount).1)

/-- The same on the queue of records, the oldest one first. -/
def queueCall (q : List Entry) : Call → Nat × List Entry
  | .addSystem t xMsg => (0, put (maxLogCount - 1) q (.system t xMsg))
  | .addEvent t nOID ulLevel xType ulValue =>
    (0, put (maxLogCount - 1) q (.event t nOID ulLevel xType ulValue))
  | .del ulCount => (min ulCount q.length, q.drop ulCount)

/-- The indices are in order, and the pool holds the records of the queue. -/
structure Represents (p : Pool) (q : List Entry) : Prop where
  sound : Sound p
  records_eq : (records p).map entry = q

namespace Represents

variable {p : Pool} {q : List Entry}

theorem length (h : Represents p q) : q.length = p.ulCount := by
  rw [← h.records_eq, List.length_map, records_length]

theorem getAt (h : Represents p q) (n : Nat) : (getAt p n).map entry = q[n]? := by
  rw [getAt_eq_getElem?, ← h.records_eq, List.getElem?_map]

theorem push_eq_put {l : List FteLog} (h : l.length ≤ maxLogCount - 1) (x : FteLog) :
    push l x = put (maxLogCount - 1) l x := by
  rw [maxLogCount_eq] at h
  rw [push, maxLogCount_eq]
  split
  next hfull =>
    have hlen : l.length = 145 - 1 := by omega
    have hne : l ≠ [] := List.ne_nil_of_length_pos (by omega)
    rw [put_of_full hlen, List.tail_append_of_ne_nil hne]
  next hroom => rw [put_of_lt (by omega)]

theorem store (h : Represents p q) (x : FteLog) :
    Represents (store p x) (put (maxLogCount - 1) q (entry x)) := by
  refine ⟨h.sound.store x, ?_⟩
  have hle : (records p).length ≤ maxLogCount - 1 := by
    have hlt := h.sound.count_lt
    rw [records_length]
    omega
  rw [records_store h.sound, push_eq_put hle, map_put, h.records_eq]

theorem del (h : Represents p q) (n : Nat) : Represents (del p n).1 (q.drop n) := by
  refine ⟨h.sound.del n, ?_⟩
  rw [records_del, List.map_drop, h.records_eq]

theorem simulates : Simulates call queueCall Represents where
  answer p q c h := by
    cases c with
    | addSystem t xMsg => rfl
    | addEvent t nOID ulLevel xType ulValue => rfl
    | del ulCount =>
      change (Log.del p ulCount).2 = min ulCount q.length
      rw [del_count, h.length]
  next p q c h := by
    cases c with
    | addSystem t xMsg =>
      simpa only [call, queueCall, addSystem, entry_systemLog] using h.store (systemLog p t xMsg)
    | addEvent t nOID ulLevel xType ulValue =>
      simpa only [call, queueCall, addEvent, entry_eventLog] using
        h.store (eventLog t nOID ulLevel xType ulValue)
    | del ulCount => exact h.del ulCount

end Represents

/-- Behind every run of additions and deletions the indices are in order, the log shows the queue of
the surviving records, and each call has returned what it returns for the queue. -/
theorem log_refines_queue (calls : List Call) :
    Sound (behind call calls zeroPool) ∧
      (behind call calls zeroPool).ulCount = (behind queueCall calls []).length ∧
      (∀ n, (getAt (behind call calls zeroPool) n).map entry = (behind queueCall calls [])[n]?) ∧
      answers call calls zeroPool = answers queueCall calls [] := by
  have hstart : Represents zeroPool [] := ⟨sound_zeroPool, rfl⟩
  have h := Represents.simulates.behind hstart calls
  exact ⟨h.sound, h.length.symm, h.getAt, Represents.simulates.answers hstart calls⟩

example : (behind queueCall [.addSystem ⟨1, 0⟩ 0, .addSystem ⟨2, 0⟩ 0, .del 1] []) =
    [.system ⟨2, 0⟩ 0] := by decide

end EdgeNode.Log
