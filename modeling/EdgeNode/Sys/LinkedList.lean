import EdgeNode.Lib.LinkedRing
import EdgeNode.Lib.Runs
import EdgeNode.Types

/-! `FTE_LIST` with the pointers of its nodes, and the sequence that they stand for. -/

namespace EdgeNode.Sys

open LinkedRing Runs

/-- `FTE_LIST` with the fields of the nodes by their address (none where no node is), and the units
left in the semaphore of its lock. The head node has no item. -/
structure LinkedList (α : Type) where
  pPrev : Nat → Option Nat
  pNext : Nat → Option Nat
  pItem : Nat → Option (Option α)
  nCount : Nat
  pHead : Option Nat
  pLockKey : Option Nat

/-- What the allocations of a call give: the head and the lock of `FTE_LIST_init`, a node. -/
structure Allocs where
  head : Option Nat
  lock : Bool
  node : Option Nat

namespace LinkedList

variable {α : Type}

section Memory

/-- A list in memory that is all zero. -/
def zeroed : LinkedList α := ⟨fun _ => none, fun _ => none, fun _ => none, 0, none, none⟩

def allocZero (pList : LinkedList α) (pNode : Nat) : LinkedList α :=
  { pList with
    pPrev := Function.update pList.pPrev pNode (some 0)
    pNext := Function.update pList.pNext pNode (some 0)
    pItem := Function.update pList.pItem pNode (some none) }

def free (pList : LinkedList α) (pNode : Nat) : LinkedList α :=
  { pList with
    pPrev := Function.update pList.pPrev pNode none
    pNext := Function.update pList.pNext pNode none
    pItem := Function.update pList.pItem pNode none }

def setPrev (pList : LinkedList α) (pNode p : Nat) : Option (LinkedList α) :=
  if (pList.pPrev pNode).isSome then
    some { pList with pPrev := Function.update pList.pPrev pNode (some p) }
  else none

def setNext (pList : LinkedList α) (pNode p : Nat) : Option (LinkedList α) :=
  if (pList.pNext pNode).isSome then
    some { pList with pNext := Function.update pList.pNext pNode (some p) }
  else none

def setItem (pList : LinkedList α) (pNode : Nat) (pItem : α) : Option (LinkedList α) :=
  if (pList.pItem pNode).isSome then
    some { pList with pItem := Function.update pList.pItem pNode (some (some pItem)) }
  else none

/-- `FTE_SYS_LOCK_enable`: it never returns without a lock (an assertion), nor where the semaphore
has no unit left and only this call could give one back. -/
def enable (pList : LinkedList α) : Option (LinkedList α) :=
  match pList.pLockKey with
  | some (n + 1) => some { pList with pLockKey := some n }
  | _ => none

def disable (pList : LinkedList α) : Option (LinkedList α) :=
  match pList.pLockKey with
  | some n => some { pList with pLockKey := some (n + 1) }
  | none => none

end Memory

section Operations

/-! None is a call that does not return. -/

def init (pList : LinkedList α) (m : Allocs) : Ret × LinkedList α :=
  match m.head with
  | none => (retNotEnoughMemory, pList)
  | some pNode =>
    (retOk,
      { pPrev := Function.update pList.pPrev pNode (some pNode)
        pNext := Function.update pList.pNext pNode (some pNode)
        pItem := Function.update pList.pItem pNode (some none)
        nCount := 0
        pHead := some pNode
        pLockKey := if m.lock then some 1 else none })

def isInitialized (pList : LinkedList α) : Bool := pList.pHead.isSome

def initialized (pList : LinkedList α) (m : Allocs) : LinkedList α :=
  if pList.isInitialized then pList else (pList.init m).2

/-- The node is put behind the head. -/
def linkFront (pList : LinkedList α) (pHead pNode : Nat) : Option (LinkedList α) := do
  let pList ← pList.setPrev pNode pHead
  let pList ← pList.setNext pNode (← pList.pNext pHead)
  let pList ← pList.setPrev (← pList.pNext pHead) pNode
  pList.setNext pHead pNode

/-- The node is put before another. -/
def linkBefore (pList : LinkedList α) (pNextNode pNode : Nat) : Option (LinkedList α) := do
  let pList ← pList.setPrev pNode (← pList.pPrev pNextNode)
  let pList ← pList.setNext pNode pNextNode
  let pList ← pList.setNext (← pList.pPrev pNextNode) pNode
  pList.setPrev pNextNode pNode

def unlink (pList : LinkedList α) (pNode : Nat) : Option (LinkedList α) := do
  let pList ← pList.setNext (← pList.pPrev pNode) (← pList.pNext pNode)
  pList.setPrev (← pList.pNext pNode) (← pList.pPrev pNode)

/-- `FTE_LIST_pushFront`, `pushBack` and `pushSort` up to the place of the new node. -/
def push (link : LinkedList α → Nat → Nat → Option (LinkedList α)) (pList : LinkedList α) (pItem : α)
    (m : Allocs) : Option (Ret × LinkedList α) :=
  let pList := pList.initialized m
  match m.node with
  | none => some (retNotEnoughMemory, pList)
  | some pNode => do
    let pList ← (pList.allocZero pNode).enable
    let pList ← pList.setItem pNode pItem
    let pList ← link pList (← pList.pHead) pNode
    let pList ← { pList with nCount := pList.nCount + 1 }.disable
    some (retOk, pList)

def pushFront (pList : LinkedList α) (pItem : α) : Allocs → Option (Ret × LinkedList α) :=
  pList.push linkFront pItem

def pushBack (pList : LinkedList α) (pItem : α) : Allocs → Option (Ret × LinkedList α) :=
  pList.push linkBefore pItem

/-- The loop of `FTE_LIST_pushSort`, with `turns` tests of it left. -/
def findGreater (pList : LinkedList α) (pItem : α) (comparator : α → α → Int) (pHead : Nat) :
    Nat → Nat → Option Nat
  | 0, _ => none
  | turns + 1, pNextNode =>
    if pNextNode = pHead then some pNextNode
    else do
      if comparator pItem (← (pList.pItem pNextNode).join) < 0 then return pNextNode
      findGreater pList pItem comparator pHead turns (← pList.pNext pNextNode)

def linkSorted (pItem : α) (comparator : α → α → Int) (pList : LinkedList α) (pHead pNode : Nat) :
    Option (LinkedList α) := do
  let pNextNode ← pList.findGreater pItem comparator pHead (pList.nCount + 1) (← pList.pNext pHead)
  pList.linkBefore pNextNode pNode

def pushSort (pList : LinkedList α) (pItem : α) (comparator : α → α → Int) :
    Allocs → Option (Ret × LinkedList α) :=
  pList.push (linkSorted pItem comparator) pItem

def popFront (pList : LinkedList α) (m : Allocs) : Option ((Ret × Option α) × LinkedList α) :=
  let pList := pList.initialized m
  if pList.nCount = 0 then some ((retError, none), pList)
  else do
    let pList ← pList.enable
    let pNode ← pList.pNext (← pList.pHead)
    let pList ← pList.unlink pNode
    let pList := { pList with nCount := pList.nCount - 1 }
    let pItem ← pList.pItem pNode
    let pList ← pList.disable
    some ((retOk, pItem), pList.free pNode)

/-- The lock is taken a second time before the node is taken off. -/
def popBack (pList : LinkedList α) (m : Allocs) : Option ((Ret × Option α) × LinkedList α) :=
  let pList := pList.initialized m
  if pList.nCount = 0 then some ((retError, none), pList)
  else do
    let pList ← pList.enable
    let pHead ← pList.pHead
    let pNode ← pList.pPrev pHead
    let pList ← pList.enable
    let pList ← pList.setPrev pHead (← pList.pPrev pNode)
    let pList ← pList.setNext (← pList.pPrev pNode) (← pList.pNext pNode)
    let pList ← { pList with nCount := pList.nCount - 1 }.disable
    let pItem ← pList.pItem pNode
    some ((retOk, pItem), pList.free pNode)

variable [DecidableEq α]

/-- The loop of `FTE_LIST_remove`, with `turns` tests of it left. -/
def findItem (pList : LinkedList α) (pItem : α) (pHead : Nat) : Nat → Nat → Option (Option Nat)
  | 0, _ => none
  | turns + 1, pNode =>
    if pNode = pHead then some none
    else do
      if (← pList.pItem pNode) = some pItem then return some pNode
      findItem pList pItem pHead turns (← pList.pNext pNode)

def remove (pList : LinkedList α) (pItem : α) (m : Allocs) : Option (Ret × LinkedList α) := do
  let pList ← (pList.initialized m).enable
  let pHead ← pList.pHead
  match ← pList.findItem pItem pHead (pList.nCount + 1) (← pList.pNext pHead) with
  | some pNode =>
    let pList ← pList.unlink pNode
    let pList ← { pList with nCount := pList.nCount - 1 }.disable
    some (retOk, pList.free pNode)
  | none =>
    let pList ← pList.disable
    some (retError, pList)

end Operations

section Links

variable {pList : LinkedList α} {h p q x : Nat} {ps qs : List Nat}

/-- A node has all of its fields. -/
structure IsNode (pList : LinkedList α) (p : Nat) : Prop where
  prev : (pList.pPrev p).isSome
  next : (pList.pNext p).isSome
  item : (pList.pItem p).isSome

structure Neighbours (pList : LinkedList α) (p q : Nat) : Prop where
  next : pList.pNext p = some q
  prev : pList.pPrev q = some p

/-- The list with the pointers of `x` and of its neighbours `p` and `q` set. -/
def linked (pList : LinkedList α) (p q x : Nat) : LinkedList α :=
  { pList with
    pNext := Function.update (Function.update pList.pNext x (some q)) p (some x)
    pPrev := Function.update (Function.update pList.pPrev x (some p)) q (some x) }

/-- The list with `p` and `q` as neighbours. -/
def unlinked (pList : LinkedList α) (p q : Nat) : LinkedList α :=
  { pList with
    pNext := Function.update pList.pNext p (some q)
    pPrev := Function.update pList.pPrev q (some p) }

@[simp] theorem pItem_unlinked : (pList.unlinked p q).pItem = pList.pItem := rfl

theorem linkFront_eq (hpq : Neighbours pList p q) (hx : IsNode pList x) (hp : p ≠ x) (hq : q ≠ x) :
    pList.linkFront p x = some (pList.linked p q x) := by
  simp [linkFront, linked, setPrev, setNext, hpq.next, hpq.prev, hx.prev, hx.next, hp, hq]

theorem linkBefore_eq (hpq : Neighbours pList p q) (hx : IsNode pList x) (hp : p ≠ x)
    (hq : q ≠ x) : pList.linkBefore q x = some (pList.linked p q x) := by
  simp [linkBefore, linked, setPrev, setNext, hpq.next, hpq.prev, hx.prev, hx.next, hp, hq]

theorem unlink_eq (hpx : Neighbours pList p x) (hxq : Neighbours pList x q) (hp : p ≠ x) :
    pList.unlink x = some (pList.unlinked p q) := by
  simp [unlink, unlinked, setPrev, setNext, hpx.next, hpx.prev, hxq.next, hxq.prev, hp.symm]

theorem neighbours (hr : Ring pList.pNext pList.pPrev h (ps ++ qs)) :
    Neighbours pList (ps.getLastD h) (qs.headD h) :=
  ⟨hr.next_eq, hr.prev_eq⟩

end Links

section Representation

/-- From the head on the nodes `ns`, given as address and item, stand on the ring. -/
structure Represents (pList : LinkedList α) (h : Nat) (ns : List (Nat × α)) : Prop where
  head : pList.pHead = some h
  ring : Ring pList.pNext pList.pPrev h (ns.map Prod.fst)
  items : ∀ n ∈ ns, pList.pItem n.1 = some (some n.2)
  count : pList.nCount = ns.length

/-- Where the nodes `ns` start, the head when there is none. -/
def first (h : Nat) (ns : List (Nat × α)) : Nat := (ns.map Prod.fst).headD h

def last (h : Nat) (ns : List (Nat × α)) : Nat := (ns.map Prod.fst).getLastD h

variable {pList : LinkedList α} {h x n : Nat} {ns as bs : List (Nat × α)} {pItem : α}

/-- The list with a new node apart from the others, behind the lock with `n` units left. -/
def entered (pList : LinkedList α) (pNode : Nat) (pItem : α) (n : Nat) : LinkedList α :=
  { pList.allocZero pNode with
    pItem := Function.update pList.pItem pNode (some (some pItem))
    pLockKey := some n }

/-- The list with `n` units in its semaphore. -/
def locked (pList : LinkedList α) (n : Nat) : LinkedList α := { pList with pLockKey := some n }

theorem enable_eq (hlock : pList.pLockKey = some (n + 1)) : pList.enable = some (pList.locked n) := by
  rw [enable, hlock]
  rfl

theorem disable_eq (hlock : pList.pLockKey = some n) :
    pList.disable = some (pList.locked (n + 1)) := by
  rw [disable, hlock]
  rfl

theorem isNode_entered (pList : LinkedList α) (pNode : Nat) (pItem : α) (n : Nat) :
    IsNode (pList.entered pNode pItem n) pNode := by
  constructor <;> simp [entered, allocZero]

theorem enter_eq (hlock : pList.pLockKey = some (n + 1)) :
    ((pList.allocZero x).enable.bind fun pList => pList.setItem x pItem) =
      some (pList.entered x pItem n) := by
  simp [enable, allocZero, setItem, entered, hlock]

namespace Represents

theorem locked (hr : Represents pList h ns) (n : Nat) : Represents (pList.locked n) h ns :=
  ⟨hr.head, hr.ring, hr.items, hr.count⟩

theorem neighbours (hr : Represents pList h (as ++ bs)) :
    Neighbours pList (last h as) (first h bs) := by
  have hring := hr.ring
  rw [List.map_append] at hring
  exact LinkedList.neighbours hring

theorem last_ne (hx : x ∉ h :: (as ++ bs).map Prod.fst) : last h as ≠ x := by
  intro heq
  apply hx
  rw [← heq, List.map_append]
  exact Ring.getLastD_mem ..

theorem first_ne (hx : x ∉ h :: (as ++ bs).map Prod.fst) : first h bs ≠ x := by
  intro heq
  apply hx
  rw [← heq, List.map_append]
  exact Ring.headD_mem ..

/-- A node that is set apart leaves the others as they are. -/
theorem entered (hr : Represents pList h ns) (hx : x ∉ h :: ns.map Prod.fst) (pItem : α) (n : Nat) :
    Represents (pList.entered x pItem n) h ns where
  head := hr.head
  ring := hr.ring.update hx _ _
  items := by
    intro n hn
    have hne : n.1 ≠ x :=
      ne_of_mem_of_not_mem (List.mem_cons_of_mem h (List.mem_map_of_mem hn)) hx
    simp [LinkedList.entered, hne, hr.items n hn]
  count := hr.count

theorem linked (hr : Represents pList h (as ++ bs)) (hx : x ∉ h :: (as ++ bs).map Prod.fst)
    (hitem : pList.pItem x = some (some pItem)) :
    Represents { pList.linked (last h as) (first h bs) x with nCount := pList.nCount + 1 } h
      (as ++ (x, pItem) :: bs) where
  head := hr.head
  ring := by
    have hring := hr.ring
    rw [List.map_append] at hring hx
    rw [List.map_append, List.map_cons]
    exact hring.insert hx
  items := by
    intro n hn
    rcases List.mem_append.mp hn with hn | hn
    · exact hr.items n (List.mem_append_left _ hn)
    · rcases List.mem_cons.mp hn with rfl | hn
      · exact hitem
      · exact hr.items n (List.mem_append_right _ hn)
  count := by
    simp only [hr.count, List.length_append, List.length_cons]
    omega

theorem unlinked (hr : Represents pList h (as ++ (x, pItem) :: bs)) :
    Represents { pList.unlinked (last h as) (first h bs) with nCount := pList.nCount - 1 } h
      (as ++ bs) where
  head := hr.head
  ring := by
    have hring := hr.ring
    rw [List.map_append, List.map_cons] at hring
    rw [List.map_append]
    exact hring.unlink
  items := fun n hn => hr.items n (by
    rcases List.mem_append.mp hn with hn | hn
    · exact List.mem_append_left _ hn
    · exact List.mem_append_right _ (List.mem_cons_of_mem _ hn))
  count := by
    simp only [hr.count, List.length_append, List.length_cons]
    omega

/-- The node that was taken off is none of the others. -/
theorem notMem (hr : Represents pList h (as ++ (x, pItem) :: bs)) :
    x ∉ h :: (as ++ bs).map Prod.fst := by
  have hnd := hr.ring.nodup
  rw [List.map_append, List.map_cons] at hnd
  have hperm : (h :: (as.map Prod.fst ++ x :: bs.map Prod.fst)).Perm
      (x :: h :: (as ++ bs).map Prod.fst) := by
    rw [List.map_append]
    exact (List.perm_middle.cons h).trans (List.Perm.swap x h _)
  exact (List.nodup_cons.mp (hperm.nodup_iff.mp hnd)).1

theorem notMem_of_none (hr : Represents pList h ns) (hx : pList.pNext x = none) :
    x ∉ h :: ns.map Prod.fst :=
  fun hmem => hr.ring.forward.ne_none hmem hx

theorem free (hr : Represents pList h ns) (hx : x ∉ h :: ns.map Prod.fst) :
    Represents (pList.free x) h ns where
  head := hr.head
  ring := hr.ring.update hx _ _
  items := by
    intro n hn
    have hne : n.1 ≠ x :=
      ne_of_mem_of_not_mem (List.mem_cons_of_mem h (List.mem_map_of_mem hn)) hx
    simp [LinkedList.free, hne, hr.items n hn]
  count := hr.count

/-- What a node is between, and that it can be taken off. -/
theorem unlink_eq (hr : Represents pList h (as ++ (x, pItem) :: bs)) :
    pList.unlink x = some (pList.unlinked (last h as) (first h bs)) := by
  have hpx : Neighbours pList (last h as) x := hr.neighbours
  have hxq : Neighbours pList x (first h bs) := by
    have hmid := hr
    rw [List.append_cons] at hmid
    simpa [last] using hmid.neighbours
  exact LinkedList.unlink_eq hpx hxq (last_ne hr.notMem)

end Represents

end Representation

section Calls

variable {pList : LinkedList α} {h x n : Nat} {ns as bs : List (Nat × α)} {pItem : α} {m : Allocs}

/-- A call returned this, with the ring of the nodes `ns` and the lock as it was. -/
def Leaves {β : Type} (pList : LinkedList α) (h : Nat) (ns : List (Nat × α)) (answer : β)
    (call : Option (β × LinkedList α)) : Prop :=
  ∃ pList', call = some (answer, pList') ∧ Represents pList' h ns ∧
    pList'.pLockKey = pList.pLockKey

theorem Represents.initialized (hr : Represents pList h ns) (m : Allocs) :
    pList.initialized m = pList := by
  rw [LinkedList.initialized, isInitialized, hr.head]
  rfl

theorem initialized_initialized (pList : LinkedList α) (m : Allocs) :
    (pList.initialized m).initialized m = pList.initialized m := by
  cases hp : pList.pHead <;> cases hm : m.head <;>
    simp [LinkedList.initialized, isInitialized, init, hp, hm]

theorem push_of_none {link : LinkedList α → Nat → Nat → Option (LinkedList α)}
    (hm : m.node = none) :
    pList.push link pItem m = some (retNotEnoughMemory, pList.initialized m) := by
  rw [push, hm]

theorem push_unlocked {link : LinkedList α → Nat → Nat → Option (LinkedList α)}
    (hlock : (pList.initialized m).pLockKey = none) (hm : m.node = some x) :
    pList.push link pItem m = none := by
  have henable : ((pList.initialized m).allocZero x).enable = none := by
    rw [enable]
    simp [allocZero, hlock]
  rw [push, hm]
  simp [henable]

/-- Without items a pop takes nothing, not even the lock. -/
theorem pops_of_zero (hcount : (pList.initialized m).nCount = 0) :
    pList.popFront m = some ((retError, none), pList.initialized m) ∧
      pList.popBack m = some ((retError, none), pList.initialized m) := by
  constructor
  · rw [popFront, if_pos hcount]
  · rw [popBack, if_pos hcount]

theorem remove_unlocked [DecidableEq α] (hlock : (pList.initialized m).pLockKey = none) :
    pList.remove pItem m = none := by
  have henable : (pList.initialized m).enable = none := by
    rw [enable, hlock]
  rw [remove, henable]
  rfl

/-- A push puts its node where `link` does. -/
theorem Represents.push {link : LinkedList α → Nat → Nat → Option (LinkedList α)}
    (hr : Represents pList h (as ++ bs)) (hlock : pList.pLockKey = some (n + 1))
    (hm : m.node = some x) (hx : x ∉ h :: (as ++ bs).map Prod.fst)
    (hlink : ∀ pList', Represents pList' h (as ++ bs) → IsNode pList' x →
      link pList' h x = some (pList'.linked (last h as) (first h bs) x)) :
    Leaves pList h (as ++ (x, pItem) :: bs) retOk (pList.push link pItem m) := by
  have hentered := hr.entered hx pItem n
  have hitem : (pList.entered x pItem n).pItem x = some (some pItem) := Function.update_self ..
  have hnew := hentered.linked hx hitem
  refine ⟨_, ?_, hnew.locked (n + 1), hlock.symm⟩
  rw [LinkedList.push, hr.initialized, hm]
  dsimp only
  rw [Option.bind_eq_bind, ← Option.bind_assoc, enter_eq hlock]
  simp only [Option.bind_eq_bind, Option.bind_some, hentered.head,
    hlink _ hentered (isNode_entered ..)]
  rfl

theorem Represents.pushFront (hr : Represents pList h ns) (hlock : pList.pLockKey = some (n + 1))
    (hm : m.node = some x) (hx : x ∉ h :: ns.map Prod.fst) :
    Leaves pList h ((x, pItem) :: ns) retOk (pList.pushFront pItem m) := by
  rw [← List.nil_append ns] at hr hx
  rw [← List.nil_append (_ :: ns)]
  exact hr.push hlock hm hx fun _ hr' hn =>
    linkFront_eq hr'.neighbours hn (last_ne hx) (first_ne hx)

theorem Represents.pushBack (hr : Represents pList h ns) (hlock : pList.pLockKey = some (n + 1))
    (hm : m.node = some x) (hx : x ∉ h :: ns.map Prod.fst) :
    Leaves pList h (ns ++ [(x, pItem)]) retOk (pList.pushBack pItem m) := by
  rw [← List.append_nil ns] at hr hx
  exact hr.push hlock hm hx fun _ hr' hn =>
    linkBefore_eq hr'.neighbours hn (last_ne hx) (first_ne hx)

section Search

variable {comparator : α → α → Int}

theorem Represents.first_mem_ne (hr : Represents pList h (as ++ (x, pItem) :: bs)) : x ≠ h := by
  have hnot := hr.notMem
  rw [List.mem_cons, not_or] at hnot
  exact hnot.1

theorem Represents.item_eq (hr : Represents pList h (as ++ (x, pItem) :: bs)) :
    pList.pItem x = some (some pItem) :=
  hr.items (x, pItem) (List.mem_append_right _ List.mem_cons_self)

theorem Represents.head_next (hr : Represents pList h ns) : pList.pNext h = some (first h ns) := by
  rw [← List.nil_append ns] at hr
  exact hr.neighbours.next

theorem Represents.head_prev (hr : Represents pList h ns) : pList.pPrev h = some (last h ns) := by
  rw [← List.append_nil ns] at hr
  exact hr.neighbours.prev

theorem Represents.next_eq (hr : Represents pList h (as ++ (x, pItem) :: bs)) :
    pList.pNext x = some (first h bs) := by
  rw [List.append_cons] at hr
  simpa [last] using hr.neighbours.next

/-- The search stops at the first item that is greater, or at the head. -/
theorem Represents.findGreater_eq (hr : Represents pList h (as ++ bs)) :
    pList.findGreater pItem comparator h (bs.length + 1) (first h bs) =
      some (first h (bs.dropWhile fun n => decide (¬ comparator pItem n.2 < 0))) := by
  induction bs generalizing as with
  | nil => simp [findGreater, first]
  | cons b bs ih =>
    obtain ⟨y, a⟩ := b
    have hne : y ≠ h := hr.first_mem_ne
    have hrest := hr
    rw [List.append_cons] at hrest
    have hfirst : first h ((y, a) :: bs) = y := rfl
    rw [List.length_cons, hfirst, findGreater, if_neg hne, hr.item_eq, hr.next_eq]
    by_cases hlt : comparator pItem a < 0
    · rw [List.dropWhile_cons_of_neg (by simpa using hlt)]
      simp [hlt, hfirst]
    · rw [List.dropWhile_cons_of_pos (by simpa using hlt)]
      simp [hlt, ih hrest]

theorem Represents.findItem_eq [DecidableEq α] (hr : Represents pList h (as ++ bs)) :
    pList.findItem pItem h (bs.length + 1) (first h bs) =
      some ((bs.find? fun n => n.2 = pItem).map Prod.fst) := by
  induction bs generalizing as with
  | nil => simp [findItem, first]
  | cons b bs ih =>
    obtain ⟨y, a⟩ := b
    have hne : y ≠ h := hr.first_mem_ne
    have hrest := hr
    rw [List.append_cons] at hrest
    have hfirst : first h ((y, a) :: bs) = y := rfl
    rw [List.length_cons, hfirst, findItem, if_neg hne, hr.item_eq, hr.next_eq]
    by_cases heq : a = pItem
    · simp [heq]
    · simp [heq, ih hrest]

/-- The searches from the first node on find the end of the list in time. -/
theorem Represents.findGreater_first (hr : Represents pList h ns) :
    pList.findGreater pItem comparator h (pList.nCount + 1) (first h ns) =
      some (first h (ns.dropWhile fun n => decide (¬ comparator pItem n.2 < 0))) := by
  rw [hr.count]
  exact Represents.findGreater_eq (show Represents pList h ([] ++ ns) from hr)

theorem Represents.findItem_first [DecidableEq α] (hr : Represents pList h ns) (pItem : α) :
    pList.findItem pItem h (pList.nCount + 1) (first h ns) =
      some ((ns.find? fun n => n.2 = pItem).map Prod.fst) := by
  rw [hr.count]
  exact Represents.findItem_eq (show Represents pList h ([] ++ ns) from hr)

end Search

theorem Represents.pushSort {comparator : α → α → Int} (hr : Represents pList h ns)
    (hlock : pList.pLockKey = some (n + 1)) (hm : m.node = some x)
    (hx : x ∉ h :: ns.map Prod.fst) :
    Leaves pList h (ns.takeWhile (fun n => decide (¬ comparator pItem n.2 < 0)) ++
      (x, pItem) :: ns.dropWhile fun n => decide (¬ comparator pItem n.2 < 0)) retOk
      (pList.pushSort pItem comparator m) := by
  have hsplit := List.takeWhile_append_dropWhile
    (p := fun n : Nat × α => decide (¬ comparator pItem n.2 < 0)) (l := ns)
  refine Represents.push (by rwa [hsplit]) hlock hm (by rwa [hsplit]) fun pList' hr' hn => ?_
  have hwhole : Represents pList' h ns := by rwa [hsplit] at hr'
  rw [linkSorted, hwhole.head_next]
  rw [Option.bind_eq_bind, Option.bind_some, hwhole.findGreater_first, Option.bind_some]
  exact linkBefore_eq hr'.neighbours hn (last_ne (by rwa [hsplit])) (first_ne (by rwa [hsplit]))

theorem Represents.popFront (hr : Represents pList h ((x, pItem) :: ns))
    (hlock : pList.pLockKey = some (n + 1)) :
    Leaves pList h ns (retOk, some pItem) (pList.popFront m) := by
  rw [← List.nil_append (_ :: ns)] at hr
  have hheld := hr.locked n
  have hnew := hheld.unlinked.free hr.notMem
  have hcount : pList.nCount ≠ 0 := by
    rw [hr.count]
    exact Nat.succ_ne_zero _
  have hfirst : (pList.locked n).pNext h = some x := hheld.head_next
  have hitem : (pList.locked n).pItem x = some (some pItem) := hheld.item_eq
  refine ⟨_, ?_, hnew.locked (n + 1), hlock.symm⟩
  rw [LinkedList.popFront, hr.initialized, if_neg hcount, enable_eq hlock]
  simp only [Option.bind_eq_bind, Option.bind_some, hheld.head, hfirst, hheld.unlink_eq]
  rw [pItem_unlinked, hitem, Option.bind_some, disable_eq (n := n) rfl]
  rfl

/-- Were there two units in the semaphore, the last item would be taken off. -/
theorem Represents.popBack_of_two (hr : Represents pList h (ns ++ [(x, pItem)]))
    (hlock : pList.pLockKey = some (n + 2)) :
    ∃ pList', pList.popBack m = some ((retOk, some pItem), pList') ∧ Represents pList' h ns ∧
      pList'.pLockKey = some (n + 1) := by
  have hheld := hr.locked n
  have hnew := hheld.unlinked.free hr.notMem
  have hcount : pList.nCount ≠ 0 := by
    rw [hr.count, List.length_append]
    exact Nat.succ_ne_zero _
  have hlast : (pList.locked n).pPrev h = some x := by
    rw [hheld.head_prev]
    simp [last]
  have hpn : Neighbours (pList.locked n) (last h ns) x := hheld.neighbours
  have hxn : (pList.locked n).pNext x = some h := hheld.next_eq
  have hnext : ((pList.locked n).pNext (last h ns)).isSome := by simp [hpn.next]
  have hxh : x ≠ h := hr.first_mem_ne
  refine ⟨_, ?_, by simpa using hnew.locked (n + 1), rfl⟩
  rw [popBack, hr.initialized, if_neg hcount, enable_eq hlock]
  have hfirst : (pList.locked (n + 1)).pPrev h = some x := hlast
  have htwo : (pList.locked (n + 1)).enable = some (pList.locked n) := enable_eq rfl
  have hhead : (pList.locked (n + 1)).pHead = some h := hr.head
  simp only [Option.bind_eq_bind, Option.bind_some, hhead, hfirst, htwo, hpn.prev]
  simp only [setPrev, hlast, Option.isSome_some, if_true, Option.bind_some, setNext,
    Function.update_of_ne hxh, hpn.prev, hxn, hnext]
  rw [disable_eq (n := n) rfl, Option.bind_some]
  have hitem : (pList.locked n).pItem x = some (some pItem) := hheld.item_eq
  change (((pList.locked n).pItem x).bind _) = _
  rw [hitem]
  rfl

theorem Represents.popBack_eq_none (hr : Represents pList h ns) (hns : ns ≠ [])
    (hlock : pList.pLockKey = some 1) : pList.popBack m = none := by
  have hcount : pList.nCount ≠ 0 := by
    rw [hr.count]
    exact fun hzero => hns (List.length_eq_zero_iff.mp hzero)
  rw [popBack, hr.initialized, if_neg hcount, enable_eq hlock]
  have htwo : (pList.locked 0).enable = none := rfl
  simp [htwo]

theorem Represents.remove_of_mem [DecidableEq α] (hr : Represents pList h (as ++ (x, pItem) :: bs))
    (has : ∀ a ∈ as, a.2 ≠ pItem) (hlock : pList.pLockKey = some (n + 1)) :
    Leaves pList h (as ++ bs) retOk (pList.remove pItem m) := by
  have hheld := hr.locked n
  have hnew := hheld.unlinked.free hr.notMem
  have hfound : (as ++ (x, pItem) :: bs).find? (fun n => decide (n.2 = pItem)) = some (x, pItem) := by
    rw [List.find?_append, List.find?_eq_none.mpr (by simpa using has)]
    simp
  have hfind := hheld.findItem_first pItem
  rw [hfound] at hfind
  refine ⟨_, ?_, hnew.locked (n + 1), hlock.symm⟩
  rw [remove, hr.initialized, enable_eq hlock]
  simp only [Option.bind_eq_bind, Option.bind_some, hheld.head, hheld.head_next, hfind,
    Option.map_some, hheld.unlink_eq]
  rw [disable_eq (n := n) rfl]
  rfl

theorem Represents.remove_of_notMem [DecidableEq α] (hr : Represents pList h ns)
    (hns : ∀ a ∈ ns, a.2 ≠ pItem) (hlock : pList.pLockKey = some (n + 1)) :
    Leaves pList h ns retError (pList.remove pItem m) := by
  have hheld := hr.locked n
  have hfound : ns.find? (fun n => decide (n.2 = pItem)) = none :=
    List.find?_eq_none.mpr (by simpa using hns)
  have hfind := hheld.findItem_first pItem
  rw [hfound] at hfind
  refine ⟨_, ?_, hheld.locked (n + 1), hlock.symm⟩
  rw [remove, hr.initialized, enable_eq hlock]
  simp only [Option.bind_eq_bind, Option.bind_some, hheld.head, hheld.head_next, hfind,
    Option.map_none]
  rw [disable_eq (n := n) rfl]
  rfl

end Calls

section Chains

/-- The items that the chain from the head on leads to, `nCount` nodes and back to the head. -/
def chain (pList : LinkedList α) (pointer : Nat → Option Nat) : Option (List α) :=
  match pList.pHead with
  | none => some []
  | some pHead => do
    let ps ← walk pointer pHead (pList.nCount + 1) (← pointer pHead)
    ps.mapM fun p => (pList.pItem p).join

/-- The two chains and the count are those of a sequence. -/
structure Describes (pList : LinkedList α) (items : List α) : Prop where
  forward : pList.chain pList.pNext = some items
  backward : pList.chain pList.pPrev = some items.reverse
  count : pList.nCount = items.length

variable {pList : LinkedList α} {h : Nat} {ns : List (Nat × α)}

theorem mapM_items (h : ∀ n ∈ ns, pList.pItem n.1 = some (some n.2)) :
    ((ns.map Prod.fst).mapM fun p => (pList.pItem p).join) = some (ns.map Prod.snd) := by
  induction ns with
  | nil => rfl
  | cons n ns ih =>
    rw [List.map_cons, List.mapM_cons, h n List.mem_cons_self,
      ih fun n hn => h n (List.mem_cons_of_mem _ hn)]
    rfl

theorem Represents.describes (hr : Represents pList h ns) : Describes pList (ns.map Prod.snd) where
  forward := by
    have hwalk := hr.ring.walk_next
    rw [List.length_map, ← hr.count] at hwalk
    rw [chain, hr.head]
    simp only [Option.bind_eq_bind, hr.head_next, Option.bind_some]
    rw [first, hwalk, Option.bind_some, mapM_items hr.items]
  backward := by
    have hwalk := hr.ring.reverse.walk_next
    rw [List.length_reverse, List.length_map, ← hr.count, headD_reverse] at hwalk
    have hrev : ∀ n ∈ ns.reverse, pList.pItem n.1 = some (some n.2) :=
      fun n hn => hr.items n (List.mem_reverse.mp hn)
    rw [chain, hr.head]
    simp only [Option.bind_eq_bind, hr.head_prev, Option.bind_some]
    rw [last, hwalk, Option.bind_some, ← List.map_reverse, mapM_items hrev, List.map_reverse]
  count := by rw [hr.count, List.length_map]

end Chains

end LinkedList

end EdgeNode.Sys
