import EdgeNode.Types
import EdgeNode.Lib.LockRuns
import Mathlib.Data.List.Sort

/-! The operations of `FTE_LIST` with their calls on the lock of the list. -/

namespace EdgeNode.Sys

open LockRuns

/-- The semaphores: the locks of lists, by address, and those of a serial channel. -/
inductive Key where
  | list (pLockKey : Nat)
  | xSEMLock
  | xSEMSend
  | xSEMRecv
  | xSEMSendNotEmtry
  deriving DecidableEq

/-- The count that `FTE_SYS_LOCK_create` or `FTE_SYS_LOCK_init` starts a semaphore with. -/
def Key.initial : Key → Nat
  | .xSEMSendNotEmtry => 0
  | _ => 1

def Key.IsLock (k : Key) : Prop := k.initial = 1

instance : DecidablePred Key.IsLock := fun k => inferInstanceAs (Decidable (k.initial = 1))

/-- `FTE_LIST`: the items on the ring of the head node, `nCount` of them; no head when `pHead` is
`NULL`. -/
structure FteList (α : Type) where
  pHead : Option (List α)
  pLockKey : Option Nat

/-- What the allocations of a call give: the head and the lock of `FTE_LIST_init`, a node. -/
structure Memory where
  head : Bool
  pLockKey : Option Nat
  node : Bool

namespace FteList

/-- `FTE_SYS_LOCK_enable`, whose assertion stops the task on `NULL`. -/
def enable : Option Nat → Run Key Unit
  | some k => Run.enable (.list k)
  | none => Run.stop

def disable : Option Nat → Run Key Unit
  | some k => Run.disable (.list k)
  | none => Run.stop

variable {α : Type}

def init (pList : FteList α) (m : Memory) : Ret × FteList α :=
  if m.head then (retOk, ⟨some [], m.pLockKey⟩) else (retNotEnoughMemory, pList)

/-- `FTE_LIST_final`: the pointer to the lock that is destroyed stays. -/
def final (pList : FteList α) : Ret × FteList α := (retOk, { pList with pHead := none })

def isInitialized (pList : FteList α) : Bool := pList.pHead.isSome

def initialized (pList : FteList α) (m : Memory) : FteList α :=
  if pList.isInitialized then pList else (pList.init m).2

def items (pList : FteList α) : List α := pList.pHead.getD []

def count (pList : FteList α) : Nat := pList.items.length

def isExist [DecidableEq α] (pList : FteList α) (pItem : α) : Bool := pItem ∈ pList.items

/-- `FTE_LIST_pushFront`, `pushBack` and `pushSort`: the new node is put among the others while the
lock is held. Without a head there is nothing to put it to, and the task faults. -/
def push (insert : List α → List α) (pList : FteList α) (m : Memory) : Run Key (Ret × FteList α) :=
  let pList := pList.initialized m
  if m.node then do
    enable pList.pLockKey
    match pList.pHead with
    | some items =>
      disable pList.pLockKey
      pure (retOk, { pList with pHead := some (insert items) })
    | none => Run.stop
  else pure (retNotEnoughMemory, pList)

def pushFront (pList : FteList α) (pItem : α) : Memory → Run Key (Ret × FteList α) :=
  push (pItem :: ·) pList

def pushBack (pList : FteList α) (pItem : α) : Memory → Run Key (Ret × FteList α) :=
  push (· ++ [pItem]) pList

/-- Behind those that the comparator does not put behind the new item. -/
def pushSort (pList : FteList α) (pItem : α) (comparator : α → α → Int) :
    Memory → Run Key (Ret × FteList α) :=
  push (fun items => items.orderedInsert (fun a b => comparator a b < 0) pItem) pList

def popFront (pList : FteList α) (m : Memory) : Run Key (Ret × Option α × FteList α) :=
  let pList := pList.initialized m
  match pList.items with
  | [] => pure (retError, none, pList)
  | pItem :: items => do
    enable pList.pLockKey
    disable pList.pLockKey
    pure (retOk, some pItem, { pList with pHead := some items })

/-- The lock is taken a second time before the node is taken off. -/
def popBack (pList : FteList α) (m : Memory) : Run Key (Ret × Option α × FteList α) :=
  let pList := pList.initialized m
  match pList.items.getLast? with
  | none => pure (retError, none, pList)
  | some pItem => do
    enable pList.pLockKey
    enable pList.pLockKey
    disable pList.pLockKey
    pure (retOk, some pItem, { pList with pHead := some pList.items.dropLast })

def getAt (pList : FteList α) (ulIndex : Nat) (m : Memory) : Option α × FteList α :=
  let pList := pList.initialized m
  (pList.items[ulIndex]?, pList)

def remove [DecidableEq α] (pList : FteList α) (pItem : α) (m : Memory) :
    Run Key (Ret × FteList α) := do
  let pList := pList.initialized m
  enable pList.pLockKey
  match pList.pHead with
  | some items =>
    if pItem ∈ items then
      disable pList.pLockKey
      pure (retOk, { pList with pHead := some (items.erase pItem) })
    else
      disable pList.pLockKey
      pure (retError, pList)
  | none => Run.stop

/-- `FTE_LIST_ITERATOR`: the list and how many nodes were passed. -/
structure Iterator (α : Type) where
  pList : FteList α
  pNode : Nat

def iterInit (pList : FteList α) (m : Memory) : Iterator α := ⟨pList.initialized m, 0⟩

/-- `FTE_LIST_ITER_getNext`; without a head the task faults. -/
def iterGetNext (pIter : Iterator α) : Run Key (Option α × Iterator α) :=
  match pIter.pList.pHead with
  | some items =>
    match items[pIter.pNode]? with
    | some pItem => pure (some pItem, { pIter with pNode := pIter.pNode + 1 })
    | none => pure (none, pIter)
  | none => Run.stop

section Items

/-- The list has its head and its lock, or a call on it makes them. -/
def Ready (pList : FteList α) (m : Memory) : Prop :=
  (pList.initialized m).pHead.isSome ∧ (pList.initialized m).pLockKey.isSome

instance (pList : FteList α) (m : Memory) : Decidable (pList.Ready m) :=
  inferInstanceAs (Decidable (_ ∧ _))

theorem items_initialized (pList : FteList α) (m : Memory) :
    (pList.initialized m).items = pList.items := by
  rw [initialized, isInitialized, items, items]
  cases hp : pList.pHead with
  | some items => simp [hp]
  | none => cases hm : m.head <;> simp [init, hm, hp]

theorem Ready.eq {pList : FteList α} {m : Memory} (h : pList.Ready m) :
    ∃ k, pList.initialized m = ⟨some pList.items, some k⟩ := by
  obtain ⟨hhead, hlock⟩ := h
  obtain ⟨items, hi⟩ := Option.isSome_iff_exists.mp hhead
  obtain ⟨k, hk⟩ := Option.isSome_iff_exists.mp hlock
  have heq := items_initialized pList m
  rw [FteList.items, hi] at heq
  refine ⟨k, ?_⟩
  rw [← heq, ← hk, Option.getD_some, ← hi]

theorem Ready.push {insert : List α → List α} {pList : FteList α} {m : Memory} (h : pList.Ready m)
    (hnode : m.node = true) : ∃ pList', (push insert pList m).outcome = .returned (retOk, pList') ∧
      pList'.items = insert pList.items := by
  obtain ⟨k, hk⟩ := h.eq
  refine ⟨⟨some (insert pList.items), some k⟩, ?_, rfl⟩
  rw [FteList.push, if_pos hnode, hk]
  rfl

/-- A push returns if it has no node to put in, or the list gets its head and its lock. -/
theorem push_returns_iff {insert : List α → List α} {pList : FteList α} {m : Memory} :
    (∃ r, (push insert pList m).outcome = .returned r) ↔ (m.node = true → pList.Ready m) := by
  constructor
  · rintro ⟨r, hr⟩ hnode
    rw [push, if_pos hnode] at hr
    cases hlock : (pList.initialized m).pLockKey with
    | none =>
      rw [hlock] at hr
      cases hr
    | some k =>
      cases hhead : (pList.initialized m).pHead with
      | none =>
        rw [hlock, hhead] at hr
        cases hr
      | some items => exact ⟨by rw [hhead]; rfl, by rw [hlock]; rfl⟩
  · intro h
    by_cases hnode : m.node = true
    · obtain ⟨pList', hpush, -⟩ := @Ready.push _ insert _ _ (h hnode) hnode
      exact ⟨_, hpush⟩
    · exact ⟨_, by rw [push, if_neg hnode]; rfl⟩

theorem Ready.remove [DecidableEq α] {pList : FteList α} {m : Memory} (h : pList.Ready m)
    (pItem : α) : ∃ xRet pList', (remove pList pItem m).outcome = .returned (xRet, pList') ∧
      pList'.items = pList.items.erase pItem := by
  obtain ⟨k, hk⟩ := h.eq
  rw [FteList.remove, hk]
  by_cases hmem : pItem ∈ pList.items
  · refine ⟨retOk, ⟨some (pList.items.erase pItem), some k⟩, ?_, rfl⟩
    simp only [if_pos hmem]
    rfl
  · refine ⟨retError, ⟨some pList.items, some k⟩, ?_, (List.erase_of_not_mem hmem).symm⟩
    simp only [if_neg hmem]
    rfl

end Items

section Returned

variable {pList : FteList α} {m : Memory}

/-- A push that returns has put the item in, or found no memory for a node. -/
theorem push_returned {insert : List α → List α} {r : Ret × FteList α}
    (h : (push insert pList m).outcome = .returned r) :
    r.2.items = if m.node then insert pList.items else pList.items := by
  rw [push] at h
  split at h
  next hnode =>
    obtain ⟨_, -, h⟩ := Run.returned_bind h
    rw [if_pos hnode, ← items_initialized pList m, items]
    cases hhead : (pList.initialized m).pHead with
    | none =>
      rw [hhead] at h
      cases h
    | some items =>
      rw [hhead] at h
      obtain ⟨_, -, h⟩ := Run.returned_bind h
      cases h
      simp [FteList.items, hhead]
  next hnode =>
    cases h
    rw [if_neg hnode, items_initialized]

theorem popFront_returned {r : Ret × Option α × FteList α}
    (h : (popFront pList m).outcome = .returned r) :
    r.2.1 = pList.items.head? ∧ r.2.2.items = pList.items.tail := by
  rw [popFront] at h
  rw [← items_initialized pList m]
  split at h
  next hnil =>
    cases h
    simp [hnil]
  next pItem items hcons =>
    obtain ⟨_, -, h⟩ := Run.returned_bind h
    obtain ⟨_, -, h⟩ := Run.returned_bind h
    cases h
    rw [hcons]
    exact ⟨rfl, rfl⟩

theorem remove_returned [DecidableEq α] {pItem : α} {r : Ret × FteList α}
    (h : (remove pList pItem m).outcome = .returned r) :
    (r.1 = retOk ↔ pItem ∈ pList.items) ∧ r.2.items = pList.items.erase pItem := by
  rw [remove] at h
  obtain ⟨_, -, h⟩ := Run.returned_bind h
  rw [← items_initialized pList m]
  cases hhead : (pList.initialized m).pHead with
  | none =>
    rw [hhead] at h
    cases h
  | some items =>
    have hitems : (pList.initialized m).items = items := by simp [FteList.items, hhead]
    rw [hhead] at h
    rw [hitems]
    dsimp only at h
    split at h
    next hmem =>
      obtain ⟨_, -, h⟩ := Run.returned_bind h
      cases h
      exact ⟨iff_of_true rfl hmem, rfl⟩
    next hmem =>
      obtain ⟨_, -, h⟩ := Run.returned_bind h
      cases h
      exact ⟨iff_of_false retError_ne hmem, by rw [hitems, List.erase_of_not_mem hmem]⟩

end Returned

section Live

/-- Only a list that was finalised has a lock and no head. -/
def Live (pList : FteList α) : Prop := pList.pHead = none → pList.pLockKey = none

theorem Live.initialized {pList : FteList α} (h : pList.Live) (m : Memory) :
    (pList.initialized m).Live := by
  rw [FteList.initialized]
  split
  · exact h
  · rw [init]
    split
    · intro hp
      cases hp
    · exact h

theorem Live.push {insert : List α → List α} {pList : FteList α} (h : pList.Live) {m : Memory}
    {r : Ret × FteList α} (hr : (push insert pList m).outcome = .returned r) : r.2.Live := by
  rw [FteList.push] at hr
  split at hr
  · cases hk : (pList.initialized m).pLockKey with
    | none =>
      rw [hk] at hr
      cases hr
    | some k =>
      cases hp : (pList.initialized m).pHead with
      | none =>
        simp only [hk, hp] at hr
        cases hr
      | some items =>
        simp only [hk, hp] at hr
        cases hr
        intro hp
        cases hp
  · cases hr
    exact h.initialized m

end Live

section Balance

/-- The list was finalised and gets no head again, so its lock pointer leads nowhere. -/
def Lost (pList : FteList α) (m : Memory) : Prop :=
  pList.pHead = none ∧ m.head = false ∧ pList.pLockKey ≠ none

theorem Live.not_lost {pList : FteList α} (h : pList.Live) (m : Memory) : ¬ pList.Lost m :=
  fun hl => hl.2.2 (h hl.1)

theorem lost_iff (pList : FteList α) (m : Memory) : pList.Lost m ↔
    (pList.initialized m).pHead = none ∧ (pList.initialized m).pLockKey ≠ none := by
  rw [Lost, initialized, isInitialized]
  cases hp : pList.pHead with
  | some items => simp [hp]
  | none => cases hm : m.head <;> simp [init, hm, hp]

variable {β : Type} {Q : Finset Key} {f : Unit → Run Key β}

/-- Past a lock that is taken there is one, and it is held. -/
theorem triple_enable {pLockKey : Option Nat}
    (h : ∀ k, pLockKey = some k → Triple Key.IsLock (insert (.list k) ∅) (f ()) Q) :
    Triple Key.IsLock ∅ (enable pLockKey >>= f) Q := by
  cases pLockKey with
  | none => exact Triple.stop
  | some k => exact Triple.enable rfl (Finset.notMem_empty _) (h k rfl)

theorem triple_disable {k : Nat} (h : Triple Key.IsLock ∅ (f ()) Q) :
    Triple Key.IsLock (insert (.list k) ∅) (disable (some k) >>= f) Q :=
  Triple.disable rfl (Finset.notMem_empty _) h

theorem triple_push {insert : List α → List α} {pList : FteList α} {m : Memory}
    (h : ¬ (pList.Lost m ∧ m.node = true)) : Triple Key.IsLock ∅ (push insert pList m) ∅ := by
  rw [push]
  split
  next hnode =>
    refine triple_enable fun k hk => ?_
    have hhead : (pList.initialized m).pHead ≠ none := by
      intro hp
      exact h ⟨(lost_iff pList m).mpr ⟨hp, by simp [hk]⟩, hnode⟩
    cases hp : (pList.initialized m).pHead with
    | none => exact absurd hp hhead
    | some items =>
      dsimp only
      rw [hk]
      exact triple_disable (Triple.pure _)
  next => exact Triple.pure _

theorem triple_popFront (pList : FteList α) (m : Memory) :
    Triple Key.IsLock ∅ (popFront pList m) ∅ := by
  rw [popFront]
  split
  next => exact Triple.pure _
  next =>
    refine triple_enable fun k hk => ?_
    rw [hk]
    exact triple_disable (Triple.pure _)

theorem triple_remove [DecidableEq α] {pList : FteList α} {pItem : α} {m : Memory}
    (h : ¬ pList.Lost m) : Triple Key.IsLock ∅ (remove pList pItem m) ∅ := by
  rw [remove]
  refine triple_enable fun k hk => ?_
  have hhead : (pList.initialized m).pHead ≠ none := by
    intro hp
    exact h ((lost_iff pList m).mpr ⟨hp, by simp [hk]⟩)
  cases hp : (pList.initialized m).pHead with
  | none => exact absurd hp hhead
  | some items =>
    dsimp only
    rw [hk]
    split <;> exact triple_disable (Triple.pure _)

theorem push_balanced_iff (insert : List α → List α) (pList : FteList α) (m : Memory) :
    Balanced Key.IsLock (push insert pList m) ↔ ¬ (pList.Lost m ∧ m.node = true) := by
  refine ⟨fun hb hlost => ?_, fun h => (triple_push h).balanced⟩
  obtain ⟨hl, hnode⟩ := hlost
  obtain ⟨hp, hk⟩ := (lost_iff pList m).mp hl
  obtain ⟨k, hk⟩ := Option.ne_none_iff_exists'.mp hk
  have hrun : push insert pList m = ⟨[.enable (.list k)], .stopped⟩ := by
    rw [push, if_pos hnode, hk, hp]
    rfl
  rw [hrun] at hb
  have hcount := hb.released (by simp) (.list k) rfl
  simp at hcount

theorem remove_balanced_iff [DecidableEq α] (pList : FteList α) (pItem : α) (m : Memory) :
    Balanced Key.IsLock (remove pList pItem m) ↔ ¬ pList.Lost m := by
  refine ⟨fun hb hlost => ?_, fun h => (triple_remove h).balanced⟩
  obtain ⟨hp, hk⟩ := (lost_iff pList m).mp hlost
  obtain ⟨k, hk⟩ := Option.ne_none_iff_exists'.mp hk
  have hrun : remove pList pItem m = ⟨[.enable (.list k)], .stopped⟩ := by
    rw [remove, hk, hp]
    rfl
  rw [hrun] at hb
  have hcount := hb.released (by simp) (.list k) rfl
  simp at hcount

/-- A list with an item and a lock is left with the lock taken twice. -/
theorem popBack_balanced_iff (pList : FteList α) (m : Memory) :
    Balanced Key.IsLock (popBack pList m) ↔
      (pList.initialized m).items = [] ∨ (pList.initialized m).pLockKey = none := by
  rw [popBack]
  cases hlast : (pList.initialized m).items.getLast? with
  | none =>
    have hnil := List.getLast?_eq_none_iff.mp hlast
    have hpure := @Triple.pure Key (Ret × Option α × FteList α) _ Key.IsLock _ ∅
    exact iff_of_true (hpure _).balanced (Or.inl hnil)
  | some pItem =>
    have hne : (pList.initialized m).items ≠ [] := by
      intro hnil
      rw [hnil] at hlast
      cases hlast
    cases hk : (pList.initialized m).pLockKey with
    | none => exact iff_of_true (@Triple.stop Key _ _ Key.IsLock _ ∅).balanced (Or.inr rfl)
    | some k =>
      refine iff_of_false (fun hb => ?_) (by simp [hne])
      change Balanced Key.IsLock ⟨[.enable (.list k), .enable (.list k), .disable (.list k)],
        .returned (retOk, some pItem, _)⟩ at hb
      have hcount := hb.released (by simp) (.list k) rfl
      simp at hcount

end Balance

end FteList

abbrev LiveList (α : Type) := { pList : FteList α // pList.Live }

/-- A function that makes no call on a lock. -/
def lockFree {β : Type} (_ : β) : Run Key Unit := pure ()

theorem balanced_pure {β : Type} (b : β) : Balanced Key.IsLock (pure b : Run Key β) :=
  have ht : Triple Key.IsLock ∅ (pure b) ∅ := Triple.pure b
  ht.balanced

inductive ListOperation (α : Type) where
  | init (m : Memory)
  | final
  | isInitialized
  | isExist (pItem : α)
  | count
  | pushFront (pItem : α) (m : Memory)
  | pushBack (pItem : α) (m : Memory)
  | pushSort (pItem : α) (comparator : α → α → Int) (m : Memory)
  | popFront (m : Memory)
  | popBack (m : Memory)
  | getAt (ulIndex : Nat) (m : Memory)
  | remove (pItem : α) (m : Memory)
  | iterInit (m : Memory)
  | iterGetNext (pNode : Nat)

namespace ListOperation

variable {α : Type} [DecidableEq α]

def run (pList : FteList α) : ListOperation α → Run Key Unit
  | .init m => lockFree (pList.init m)
  | .final => lockFree pList.final
  | .isInitialized => lockFree pList.isInitialized
  | .isExist pItem => lockFree (pList.isExist pItem)
  | .count => lockFree pList.count
  | .pushFront pItem m => (fun _ => ()) <$> pList.pushFront pItem m
  | .pushBack pItem m => (fun _ => ()) <$> pList.pushBack pItem m
  | .pushSort pItem comparator m => (fun _ => ()) <$> pList.pushSort pItem comparator m
  | .popFront m => (fun _ => ()) <$> pList.popFront m
  | .popBack m => (fun _ => ()) <$> pList.popBack m
  | .getAt ulIndex m => lockFree (pList.getAt ulIndex m)
  | .remove pItem m => (fun _ => ()) <$> pList.remove pItem m
  | .iterInit m => lockFree (pList.iterInit m)
  | .iterGetNext pNode => (fun _ => ()) <$> FteList.iterGetNext ⟨pList, pNode⟩

/-- A lost list is not pushed to or removed from, and nothing is popped off the back of a list. -/
def Allowed (pList : FteList α) : ListOperation α → Prop
  | .pushFront _ m | .pushBack _ m | .pushSort _ _ m => ¬ (pList.Lost m ∧ m.node = true)
  | .remove _ m => ¬ pList.Lost m
  | .popBack m => (pList.initialized m).items = [] ∨ (pList.initialized m).pLockKey = none
  | _ => True

theorem balanced_iff (pList : FteList α) (op : ListOperation α) :
    Balanced Key.IsLock (op.run pList) ↔ op.Allowed pList := by
  cases op with
  | pushFront pItem m => exact (balanced_map _ _).trans (FteList.push_balanced_iff _ _ m)
  | pushBack pItem m => exact (balanced_map _ _).trans (FteList.push_balanced_iff _ _ m)
  | pushSort pItem comparator m => exact (balanced_map _ _).trans (FteList.push_balanced_iff _ _ m)
  | remove pItem m => exact (balanced_map _ _).trans (FteList.remove_balanced_iff _ _ m)
  | popBack m => exact (balanced_map _ _).trans (FteList.popBack_balanced_iff _ m)
  | popFront m =>
    exact iff_of_true ((balanced_map _ _).mpr (FteList.triple_popFront pList m).balanced) trivial
  | iterGetNext pNode =>
    refine iff_of_true ((balanced_map _ _).mpr ?_) trivial
    rw [FteList.iterGetNext]
    split
    · split <;> exact balanced_pure _
    · exact (@Triple.stop Key _ _ Key.IsLock _ ∅).balanced
  | init | final | isInitialized | isExist | count | getAt | iterInit =>
    exact iff_of_true (balanced_pure ()) trivial

end ListOperation

end EdgeNode.Sys
