import EdgeNode.Sys.LinkedList
import EdgeNode.Sys.Lists

/-! Runs of the operations of `FTE_LIST` beside the same operations on a sequence. -/

namespace EdgeNode.Sys

open LinkedRing Runs

inductive ListCall (α : Type) where
  | pushFront (pItem : α)
  | pushBack (pItem : α)
  | pushSort (pItem : α) (comparator : α → α → Int)
  | popFront
  | popBack
  | remove (pItem : α)

section Sorting

variable {α : Type} {comparator : α → α → Int}

/-- The item is put before the first that is greater. -/
def insertSorted (comparator : α → α → Int) (pItem : α) (items : List α) : List α :=
  items.takeWhile (fun x => decide (¬ comparator pItem x < 0)) ++
    pItem :: items.dropWhile fun x => decide (¬ comparator pItem x < 0)

/-- A comparator of a preorder. -/
structure Consistent (comparator : α → α → Int) : Prop where
  swap : ∀ x y, comparator x y < 0 ↔ 0 < comparator y x
  trans : ∀ x y z, comparator x y ≤ 0 → comparator y z ≤ 0 → comparator x z ≤ 0

def Sorted (comparator : α → α → Int) (items : List α) : Prop :=
  items.Pairwise fun x y => comparator x y ≤ 0

variable {pItem : α} {items : List α}

theorem Consistent.lt_of_lt_of_le (hc : Consistent comparator) {x y z : α}
    (hxy : comparator x y < 0) (hyz : comparator y z ≤ 0) : comparator x z < 0 := by
  by_contra hge
  have hzx : comparator z x ≤ 0 := Int.not_lt.mp ((hc.swap x z).not.mp hge)
  have hyx := hc.trans y z x hyz hzx
  have := (hc.swap x y).mp hxy
  omega

theorem Consistent.le_of_not_lt (hc : Consistent comparator) {x y : α}
    (h : ¬ comparator x y < 0) : comparator y x ≤ 0 :=
  Int.not_lt.mp ((hc.swap x y).not.mp h)

/-- In a sorted list all items that are greater stand behind the first. -/
theorem insertSorted_eq_filter (hc : Consistent comparator) (hs : Sorted comparator items) :
    insertSorted comparator pItem items =
      items.filter (fun x => decide (¬ comparator pItem x < 0)) ++
        pItem :: items.filter fun x => decide (comparator pItem x < 0) := by
  induction items with
  | nil => rfl
  | cons x items ih =>
    have htail := List.pairwise_cons.mp hs
    by_cases hlt : comparator pItem x < 0
    · have hall : ∀ y ∈ items, comparator pItem y < 0 := fun y hy => hc.lt_of_lt_of_le hlt (htail.1 y hy)
      have hnone : items.filter (fun y => decide (¬ comparator pItem y < 0)) = [] :=
        List.filter_eq_nil_iff.mpr (by simpa using hall)
      have hsome : items.filter (fun y => decide (comparator pItem y < 0)) = items :=
        List.filter_eq_self.mpr (by simpa using hall)
      rw [insertSorted, List.takeWhile_cons_of_neg (by simpa using hlt),
        List.dropWhile_cons_of_neg (by simpa using hlt), List.filter_cons_of_neg (by simpa using hlt),
        List.filter_cons_of_pos (by simpa using hlt), hnone, hsome]
    · have hrest := ih htail.2
      rw [insertSorted] at hrest
      rw [insertSorted, List.takeWhile_cons_of_pos (by simpa using hlt),
        List.dropWhile_cons_of_pos (by simpa using hlt), List.filter_cons_of_pos (by simpa using hlt),
        List.filter_cons_of_neg (by simpa using hlt), List.cons_append, List.cons_append, hrest]

theorem sorted_insertSorted (hc : Consistent comparator) (hs : Sorted comparator items) :
    Sorted comparator (insertSorted comparator pItem items) := by
  rw [insertSorted_eq_filter hc hs, Sorted, List.pairwise_append, List.pairwise_cons]
  refine ⟨hs.filter _, ⟨?_, hs.filter _⟩, ?_⟩
  · intro y hy
    have hlt := (List.mem_filter.mp hy).2
    exact Int.le_of_lt (of_decide_eq_true hlt)
  · intro x hx y hy
    have hx := hc.le_of_not_lt (of_decide_eq_true (List.mem_filter.mp hx).2)
    rcases List.mem_cons.mp hy with rfl | hy
    · exact hx
    · have hlt := of_decide_eq_true (List.mem_filter.mp hy).2
      exact hc.trans _ _ _ hx (Int.le_of_lt hlt)

end Sorting

namespace ListCall

variable {α : Type} [DecidableEq α]

/-- What a call returns, with the item at `ppItem`; none when it does not return. -/
def run (pList : LinkedList α) (m : Allocs) :
    ListCall α → Option ((Ret × Option α) × LinkedList α)
  | .pushFront pItem => (pList.pushFront pItem m).map fun r => ((r.1, none), r.2)
  | .pushBack pItem => (pList.pushBack pItem m).map fun r => ((r.1, none), r.2)
  | .pushSort pItem comparator =>
    (pList.pushSort pItem comparator m).map fun r => ((r.1, none), r.2)
  | .popFront => pList.popFront m
  | .popBack => pList.popBack m
  | .remove pItem => (pList.remove pItem m).map fun r => ((r.1, none), r.2)

/-- The same on a sequence; `room` says whether there is memory for a node. -/
def onSequence (room : Bool) (items : List α) : ListCall α → (Ret × Option α) × List α
  | .pushFront pItem => pushed (pItem :: items)
  | .pushBack pItem => pushed (items ++ [pItem])
  | .pushSort pItem comparator => pushed (insertSorted comparator pItem items)
  | .popFront =>
    match items with
    | [] => ((retError, none), items)
    | pItem :: items => ((retOk, some pItem), items)
  | .popBack =>
    match items.getLast? with
    | none => ((retError, none), items)
    | some pItem => ((retOk, some pItem), items.dropLast)
  | .remove pItem =>
    if pItem ∈ items then ((retOk, none), items.erase pItem) else ((retError, none), items)
where
  pushed (pushed : List α) : (Ret × Option α) × List α :=
    if room then ((retOk, none), pushed) else ((retNotEnoughMemory, none), items)

/-- A call that has to take the lock once finds it, and one that takes it twice has nothing to do. -/
def Served (pList : LinkedList α) (m : Allocs) : ListCall α → Prop
  | .popFront => True
  | .popBack => (pList.initialized m).nCount = 0
  | .remove _ => (pList.initialized m).pLockKey ≠ none
  | .pushFront _ | .pushBack _ | .pushSort _ _ =>
    m.node = none ∨ (pList.initialized m).pLockKey ≠ none

instance (pList : LinkedList α) (m : Allocs) : DecidablePred (Served pList m) := by
  intro c
  cases c <;> unfold Served <;> infer_instance

end ListCall

/-- The addresses of a call are those of no node. -/
def Allocs.Fresh {α : Type} (m : Allocs) (pList : LinkedList α) : Prop :=
  (∀ p ∈ m.head, pList.pNext p = none) ∧ ∀ p ∈ m.node, pList.pNext p = none ∧ m.head ≠ some p

instance {α : Type} (m : Allocs) (pList : LinkedList α) : Decidable (m.Fresh pList) :=
  inferInstanceAs (Decidable ((∀ p ∈ m.head, pList.pNext p = none) ∧
    ∀ p ∈ m.node, pList.pNext p = none ∧ m.head ≠ some p))

section Steps

variable {α : Type} {pList : LinkedList α} {m : Allocs} {items : List α}

/-- A list without a lock is empty; one with a lock has its items on the ring. -/
inductive Stands (pList : LinkedList α) : List α → Prop
  | bare (lock : pList.pLockKey = none) (empty : pList.Describes []) : Stands pList []
  | ring (h : Nat) (ns : List (Nat × α)) (lock : pList.pLockKey = some 1)
      (ring : pList.Represents h ns) : Stands pList (ns.map Prod.snd)

theorem Stands.describes (hs : Stands pList items) : pList.Describes items := by
  cases hs with
  | bare _ empty => exact empty
  | ring _ _ _ ring => exact ring.describes

theorem stands_zeroed : Stands (LinkedList.zeroed : LinkedList α) [] :=
  .bare rfl ⟨rfl, rfl, rfl⟩

/-- `FTE_LIST_init` with memory for the head. -/
theorem stands_init (pList : LinkedList α) {m : Allocs} (hm : m.head.isSome) :
    Stands (pList.init m).2 [] := by
  obtain ⟨p, hp⟩ := Option.isSome_iff_exists.mp hm
  have hr : ((pList.init m).2).Represents p [] := by
    rw [LinkedList.init, hp]
    exact ⟨rfl, .single (Function.update_self ..) (Function.update_self ..), by simp, rfl⟩
  cases hl : m.lock with
  | false =>
    refine .bare ?_ hr.describes
    rw [LinkedList.init, hp]
    simp [hl]
  | true =>
    refine .ring p [] ?_ hr
    rw [LinkedList.init, hp]
    simp [hl]

theorem Stands.initialized (hs : Stands pList items) (m : Allocs) :
    Stands (pList.initialized m) items := by
  cases hs with
  | ring h ns lock ring =>
    rw [ring.initialized]
    exact .ring h ns lock ring
  | bare lock empty =>
    rw [LinkedList.initialized]
    split
    · exact .bare lock empty
    · cases hm : m.head with
      | none =>
        rw [LinkedList.init, hm]
        exact .bare lock empty
      | some p => exact stands_init pList (by rw [hm]; rfl)

theorem Allocs.Fresh.node (hf : m.Fresh pList) {x : Nat} (hx : m.node = some x) :
    (pList.initialized m).pNext x = none := by
  obtain ⟨hnone, hne⟩ := hf.2 x hx
  rw [LinkedList.initialized]
  split
  · exact hnone
  · rw [LinkedList.init]
    cases hm : m.head with
    | none => exact hnone
    | some p =>
      have hxp : x ≠ p := fun heq => hne (by rw [hm, heq])
      simpa [hxp] using hnone

/-- What a call gives where it is served: the answer on the sequence, and a list that stands for what
the sequence becomes. -/
def Answers (pList' : Option ((Ret × Option α) × LinkedList α))
    (expected : (Ret × Option α) × List α) : Prop :=
  ∃ pList, pList' = some (expected.1, pList) ∧ Stands pList expected.2

/-- A push that puts its node to the others as it should. -/
theorem answers_push {link : LinkedList α → Nat → Nat → Option (LinkedList α)} {pItem : α}
    {pushed : List α} (hs : Stands pList items) (hi : pList.initialized m = pList)
    (hserved : m.node = none ∨ pList.pLockKey ≠ none)
    (hpush : ∀ h ns x, items = ns.map Prod.snd → pList.Represents h ns → pList.pLockKey = some 1 →
      m.node = some x →
      ∃ ns', ns'.map Prod.snd = pushed ∧ pList.Leaves h ns' retOk (pList.push link pItem m)) :
    Answers ((pList.push link pItem m).map fun r => ((r.1, none), r.2))
      (ListCall.onSequence.pushed m.node.isSome items pushed) := by
  cases hm : m.node with
  | none => exact ⟨pList, by rw [LinkedList.push_of_none hm, hi]; rfl, hs⟩
  | some x =>
    cases hs with
    | bare lock _ =>
      rcases hserved with hserved | hserved
      · rw [hm] at hserved
        cases hserved
      · exact absurd lock hserved
    | ring h ns lock ring =>
      obtain ⟨ns', hns', pList', hcall, hr, hlock⟩ := hpush h ns x rfl ring lock hm
      refine ⟨pList', by rw [hcall]; rfl, ?_⟩
      have hnew := Stands.ring h ns' (hlock.trans lock) hr
      rwa [hns'] at hnew

variable [DecidableEq α]

theorem Stands.answers (hs : Stands pList items) (hi : pList.initialized m = pList)
    (hx : ∀ x, m.node = some x → pList.pNext x = none) {c : ListCall α} (hc : c.Served pList m) :
    Answers (c.run pList m) (c.onSequence m.node.isSome items) := by
  cases c with
  | pushFront pItem =>
    rw [ListCall.Served, hi] at hc
    refine answers_push hs hi hc fun h ns x hitems hr hlock hm => ?_
    refine ⟨(x, pItem) :: ns, by rw [hitems]; rfl, ?_⟩
    exact hr.pushFront hlock hm (hr.notMem_of_none (hx x hm))
  | pushBack pItem =>
    rw [ListCall.Served, hi] at hc
    refine answers_push hs hi hc fun h ns x hitems hr hlock hm => ?_
    refine ⟨ns ++ [(x, pItem)], by rw [hitems, List.map_append]; rfl, ?_⟩
    exact hr.pushBack hlock hm (hr.notMem_of_none (hx x hm))
  | pushSort pItem comparator =>
    rw [ListCall.Served, hi] at hc
    refine answers_push hs hi hc fun h ns x hitems hr hlock hm => ?_
    refine ⟨_, ?_, hr.pushSort hlock hm (hr.notMem_of_none (hx x hm))⟩
    rw [hitems, insertSorted, List.takeWhile_map, List.dropWhile_map, List.map_append, List.map_cons]
    rfl
  | popFront =>
    cases hs with
    | bare lock empty =>
      refine ⟨pList, ?_, .bare lock empty⟩
      rw [ListCall.run, (LinkedList.pops_of_zero (by rw [hi, empty.count]; rfl)).1, hi]
      rfl
    | ring h ns lock ring =>
      cases ns with
      | nil =>
        refine ⟨pList, ?_, .ring h [] lock ring⟩
        rw [ListCall.run, (LinkedList.pops_of_zero (by rw [hi, ring.count]; rfl)).1, hi]
        rfl
      | cons n ns =>
        obtain ⟨pList', hcall, hr, hlock⟩ := LinkedList.Represents.popFront (m := m) ring lock
        exact ⟨pList', hcall, .ring h ns (hlock.trans lock) hr⟩
  | popBack =>
    have hcount := hc
    rw [ListCall.Served, hi, hs.describes.count, List.length_eq_zero_iff] at hcount
    subst hcount
    refine ⟨pList, ?_, hs⟩
    rw [ListCall.run, (LinkedList.pops_of_zero hc).2, hi]
    rfl
  | remove pItem =>
    rw [ListCall.Served, hi] at hc
    cases hs with
    | bare lock _ => exact absurd lock hc
    | ring h ns lock ring =>
      by_cases hmem : pItem ∈ ns.map Prod.snd
      · obtain ⟨l₁, l₂, hl₁, hsplit, herase⟩ := List.exists_erase_eq hmem
        obtain ⟨as, bs', rfl, rfl, hbs⟩ := List.map_eq_append_iff.mp hsplit
        obtain ⟨⟨x, a⟩, bs, rfl, rfl, rfl⟩ := List.map_eq_cons_iff.mp hbs
        have has : ∀ n ∈ as, n.2 ≠ a := by
          rintro n hn rfl
          exact hl₁ (List.mem_map.mpr ⟨n, hn, rfl⟩)
        obtain ⟨pList', hcall, hr, hlock⟩ := ring.remove_of_mem (m := m) has lock
        rw [Answers, ListCall.onSequence, if_pos hmem, ListCall.run, hcall, herase, ← List.map_append]
        exact ⟨pList', rfl, .ring h (as ++ bs) (hlock.trans lock) hr⟩
      · have hns : ∀ n ∈ ns, n.2 ≠ pItem := fun n hn heq => hmem (heq ▸ List.mem_map_of_mem hn)
        obtain ⟨pList', hcall, hr, hlock⟩ := ring.remove_of_notMem (m := m) hns lock
        rw [Answers, ListCall.onSequence, if_neg hmem, ListCall.run, hcall]
        exact ⟨pList', rfl, .ring h ns (hlock.trans lock) hr⟩

/-- A call that is not served does not return. -/
theorem Stands.run_eq_none (hs : Stands pList items) (hi : pList.initialized m = pList)
    {c : ListCall α} (hc : ¬ c.Served pList m) : c.run pList m = none := by
  have hpush {link : LinkedList α → Nat → Nat → Option (LinkedList α)} {pItem : α}
      (h : ¬ (m.node = none ∨ (pList.initialized m).pLockKey ≠ none)) :
      pList.push link pItem m = none := by
    rw [not_or, Classical.not_not] at h
    obtain ⟨x, hx⟩ := Option.ne_none_iff_exists'.mp h.1
    exact LinkedList.push_unlocked h.2 hx
  cases c with
  | pushFront pItem => rw [ListCall.run, LinkedList.pushFront, hpush hc]; rfl
  | pushBack pItem => rw [ListCall.run, LinkedList.pushBack, hpush hc]; rfl
  | pushSort pItem comparator => rw [ListCall.run, LinkedList.pushSort, hpush hc]; rfl
  | popFront => exact absurd trivial hc
  | popBack =>
    rw [ListCall.Served, hi] at hc
    cases hs with
    | bare _ empty => exact absurd empty.count hc
    | ring h ns lock ring =>
      refine ring.popBack_eq_none (fun hns => hc ?_) lock
      rw [ring.count, hns]
      rfl
  | remove pItem =>
    rw [ListCall.run, LinkedList.remove_unlocked (Classical.not_not.mp hc)]
    rfl

theorem run_initialized (pList : LinkedList α) (m : Allocs) (c : ListCall α) :
    c.run (pList.initialized m) m = c.run pList m := by
  have hi := LinkedList.initialized_initialized pList m
  cases c <;>
    simp only [ListCall.run, LinkedList.pushFront, LinkedList.pushBack, LinkedList.pushSort,
      LinkedList.push, LinkedList.popFront, LinkedList.popBack, LinkedList.remove, hi]

omit [DecidableEq α] in
theorem served_initialized (pList : LinkedList α) (m : Allocs) (c : ListCall α) :
    c.Served (pList.initialized m) m ↔ c.Served pList m := by
  have hi := LinkedList.initialized_initialized pList m
  cases c <;> simp only [ListCall.Served, hi]

/-- The operations on a list of items. -/
def ListCall.onItems (pList : FteList α) (m : Memory) :
    ListCall α → LockRuns.Run Key ((Ret × Option α) × FteList α)
  | .pushFront pItem => (fun r => ((r.1, none), r.2)) <$> pList.pushFront pItem m
  | .pushBack pItem => (fun r => ((r.1, none), r.2)) <$> pList.pushBack pItem m
  | .pushSort pItem comparator => (fun r => ((r.1, none), r.2)) <$> pList.pushSort pItem comparator m
  | .popFront => (fun r => ((r.1, r.2.1), r.2.2)) <$> pList.popFront m
  | .popBack => (fun r => ((r.1, r.2.1), r.2.2)) <$> pList.popBack m
  | .remove pItem => (fun r => ((r.1, none), r.2)) <$> pList.remove pItem m

/-- With a lock that is free whenever it is asked for they are those on the sequence. -/
theorem onItems_eq (c : ListCall α) (items : List α) (k : Nat) (m : Memory) :
    (c.onItems ⟨some items, some k⟩ m).outcome =
      .returned ((c.onSequence m.node items).1, ⟨some (c.onSequence m.node items).2, some k⟩) := by
  obtain ⟨head, lock, node⟩ := m
  cases c with
  | pushFront pItem => cases node <;> rfl
  | pushBack pItem => cases node <;> rfl
  | pushSort pItem comparator =>
    cases node with
    | false => rfl
    | true =>
      have hinsert := List.orderedInsert_eq_take_drop (fun a b => comparator a b < 0) pItem items
      simp only [ListCall.onSequence, ListCall.onSequence.pushed, insertSorted, if_true]
      rw [← hinsert]
      rfl
  | popFront => cases items <;> rfl
  | popBack =>
    have hlast : FteList.items ⟨some items, some k⟩ = items := rfl
    rw [ListCall.onItems, FteList.popBack, FteList.initialized, ListCall.onSequence]
    simp only [FteList.isInitialized, Option.isSome_some, if_true, hlast]
    cases items.getLast? <;> rfl
  | remove pItem =>
    rw [ListCall.onItems, FteList.remove, FteList.initialized, ListCall.onSequence]
    simp only [FteList.isInitialized, Option.isSome_some, if_true]
    by_cases hmem : pItem ∈ items
    · simp only [hmem, if_true]
      rfl
    · simp only [hmem, if_false]
      rfl

end Steps

section Histories

variable {α : Type} [DecidableEq α]

/-- A list beside the sequence, with what its calls answered and what they should have; there is no
list once a call does not return. -/
structure History (α : Type) where
  pList : Option (LinkedList α)
  items : List α
  answered : List (Ret × Option α)
  expected : List (Ret × Option α)

namespace History

def start (pList : LinkedList α) : History α := ⟨some pList, [], [], []⟩

/-- A call with what its allocations give, which is no memory in use. -/
def step (s : History α) (a : ListCall α × Allocs) : Option (History α) :=
  match s.pList with
  | none => some s
  | some pList =>
    if a.2.Fresh pList then
      let (expected, items) := a.1.onSequence a.2.node.isSome s.items
      match a.1.run pList a.2 with
      | some (answer, pList) =>
        some ⟨some pList, items, s.answered ++ [answer], s.expected ++ [expected]⟩
      | none => some ⟨none, items, s.answered, s.expected ++ [expected]⟩
    else none

/-- The list stands for the sequence, and its calls answered as those on the sequence. -/
def Refines (s : History α) : Prop :=
  ∃ pList, s.pList = some pList ∧ pList.Describes s.items ∧ s.answered = s.expected

def Allowed (s : History α) (a : ListCall α × Allocs) : Prop :=
  ∀ pList ∈ s.pList, a.1.Served pList a.2

instance (s : History α) : DecidablePred (Allowed s) := fun a =>
  inferInstanceAs (Decidable (∀ pList ∈ s.pList, a.1.Served pList a.2))

def Inv (s : History α) : Prop :=
  ∃ pList, s.pList = some pList ∧ Stands pList s.items ∧ s.answered = s.expected

omit [DecidableEq α] in
theorem Inv.refines {s : History α} (h : s.Inv) : s.Refines := by
  obtain ⟨pList, hp, hs, heq⟩ := h
  exact ⟨pList, hp, hs.describes, heq⟩

omit [DecidableEq α] in
theorem inv_start {pList : LinkedList α} (hs : Stands pList []) : (start pList).Inv :=
  ⟨pList, rfl, hs, rfl⟩

theorem step_eq {s : History α} {pList : LinkedList α} {a : ListCall α × Allocs}
    (hp : s.pList = some pList) (hf : a.2.Fresh pList) : s.step a =
      match a.1.run (pList.initialized a.2) a.2 with
      | some (answer, pList) => some ⟨some pList, (a.1.onSequence a.2.node.isSome s.items).2,
          s.answered ++ [answer], s.expected ++ [(a.1.onSequence a.2.node.isSome s.items).1]⟩
      | none => some ⟨none, (a.1.onSequence a.2.node.isSome s.items).2, s.answered,
          s.expected ++ [(a.1.onSequence a.2.node.isSome s.items).1]⟩ := by
  rw [step, hp, run_initialized]
  exact if_pos hf

theorem fresh_of_step {s t : History α} {pList : LinkedList α} {a : ListCall α × Allocs}
    (hp : s.pList = some pList) (h : s.step a = some t) : a.2.Fresh pList := by
  by_contra hf
  rw [step, hp] at h
  simp [hf] at h

theorem inv_step {s t : History α} {a : ListCall α × Allocs} (hi : s.Inv) (ha : s.Allowed a)
    (h : s.step a = some t) : t.Inv := by
  obtain ⟨pList, hp, hs, heq⟩ := hi
  have hf := fresh_of_step hp h
  have hii := LinkedList.initialized_initialized pList a.2
  have hserved := (served_initialized pList a.2 a.1).mpr (ha pList hp)
  obtain ⟨pList', hcall, hnew⟩ := (hs.initialized a.2).answers hii (fun x hx => hf.node hx) hserved
  rw [step_eq hp hf, hcall] at h
  cases h
  exact ⟨pList', rfl, hnew, by rw [heq]⟩

theorem not_refines_step {s t : History α} {a : ListCall α × Allocs} (hi : s.Inv)
    (ha : ¬ s.Allowed a) (h : s.step a = some t) : ¬ t.Refines := by
  obtain ⟨pList, hp, hs, -⟩ := hi
  have hf := fresh_of_step hp h
  have hii := LinkedList.initialized_initialized pList a.2
  have hserved : ¬ a.1.Served (pList.initialized a.2) a.2 := by
    intro hserved
    apply ha
    intro q hq
    cases hp.symm.trans hq
    exact (served_initialized pList a.2 a.1).mp hserved
  rw [step_eq hp hf, (hs.initialized a.2).run_eq_none hii hserved] at h
  cases h
  rintro ⟨q, hq, -⟩
  cases hq

/-- From a list that is all zero, or was initialised, a run of the operations is one on a sequence
exactly when every call of it is served; and a push into a sorted list leaves it sorted, the new item
behind all that are not greater. -/
theorem list_refines_iff {pList : LinkedList α}
    (hstart : pList = LinkedList.zeroed ∨ ∃ l m, m.head.isSome ∧ pList = (LinkedList.init l m).2)
    {acts : List (ListCall α × Allocs)} {t : History α}
    (ht : exec step acts (start pList) = some t) :
    ((∀ u, Visits step (start pList) acts u → u.Refines) ↔
      ∀ u a, Takes step (start pList) acts u a → u.Allowed a) ∧
    ∀ comparator : α → α → Int, Consistent comparator → ∀ items, Sorted comparator items → ∀ pItem,
      insertSorted comparator pItem items =
        items.filter (fun x => decide (¬ comparator pItem x < 0)) ++
          pItem :: items.filter (fun x => decide (comparator pItem x < 0)) ∧
      Sorted comparator (insertSorted comparator pItem items) := by
  have hs : Stands pList [] := by
    rcases hstart with rfl | ⟨l, m, hm, rfl⟩
    · exact stands_zeroed
    · exact stands_init l hm
  constructor
  · exact visits_iff_takes (inv_start hs) (fun u a v hi ha hv => inv_step hi ha hv)
      (fun u hi => hi.refines) (fun u a v hi ha hv => not_refines_step hi ha hv) ht
  · exact fun comparator hc items hsorted pItem =>
      ⟨insertSorted_eq_filter hc hsorted, sorted_insertSorted hc hsorted⟩

/-- Two items in order, one put between them, one removed, and one taken off at the front. -/
def inOrder : List (ListCall Nat × Allocs) :=
  [(.pushBack 3, ⟨some 1, true, some 2⟩), (.pushBack 7, ⟨none, true, some 3⟩),
    (.pushSort 5 fun x y => (x : Int) - y, ⟨none, true, some 4⟩), (.remove 7, ⟨none, true, none⟩),
    (.popFront, ⟨none, true, none⟩)]

theorem inOrder_refines : ∃ t, exec step inOrder (start LinkedList.zeroed) = some t ∧
    ∀ u, Visits step (start LinkedList.zeroed) inOrder u → u.Refines :=
  ⟨_, rfl, (list_refines_iff (.inl rfl) rfl).1.mpr (takes_of_along (by decide))⟩

/-- The only item of a list is asked for from the back. -/
theorem popBack_not_refines :
    ∃ u, Visits step (start (LinkedList.init LinkedList.zeroed ⟨some 1, true, none⟩).2)
      [(.pushBack 5, ⟨none, true, some 2⟩), (.popBack, ⟨none, true, none⟩)] u ∧
        ¬ (u : History Nat).Refines := by
  refine ⟨_, ⟨_, List.prefix_rfl, rfl⟩, ?_⟩
  rintro ⟨q, hq, -⟩
  cases hq

end History

end Histories

end EdgeNode.Sys
