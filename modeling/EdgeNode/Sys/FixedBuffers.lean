import EdgeNode.Sys.Lists

/-! `FTE_FBM`: buffers of one size, and who has which of them. -/

namespace EdgeNode.Sys

open LockRuns Runs

section Definitions

/-- `FTE_FBM`, its own lock left out. A buffer is named by the turn of the loop of `FTE_FBM_create`
that allocates it; any other number is a foreign pointer. -/
structure Fbm where
  ulUnit : UInt32
  ulMaxCount : UInt32
  xAllocList : FteList Nat
  xFreeList : FteList Nat
  ulSize : Nat → UInt32

/-- The loop of `FTE_FBM_create`, over what the allocations of each turn give: the buffer, and what
the push takes. -/
def fbmFill (room : Nat → Bool × Memory) : Nat → Nat → FteList Nat → Run Key (Option (FteList Nat))
  | 0, _, xFreeList => pure (some xFreeList)
  | k + 1, i, xFreeList =>
    if (room i).1 then do
      let (_, xFreeList) ← xFreeList.pushBack i (room i).2
      fbmFill room k (i + 1) xFreeList
    else pure none

/-- `FTE_FBM_create`; `NULL` once everything is given back. -/
def fbmCreate (ulUnit ulMaxCount : UInt32) (fbm : Bool) (room : Nat → Bool × Memory) :
    Run Key (Option Fbm) :=
  if fbm then do
    let pFree ← fbmFill room ulMaxCount.toNat 0 ⟨none, none⟩
    pure (pFree.map fun xFreeList => ⟨ulUnit, ulMaxCount, ⟨none, none⟩, xFreeList, fun _ => 0⟩)
  else pure none

/-- `FTE_FBM_alloc`: the pop needs the memory `pop`, the push the memory `push`. -/
def fbmAlloc (pFBM : Fbm) (ulSize : UInt32) (pop push : Memory) : Run Key (Option Nat × Fbm) :=
  if pFBM.xFreeList.count ≠ 0 then do
    let (_, pBuff, xFreeList) ← pFBM.xFreeList.popFront pop
    match pBuff with
    | none => pure (none, { pFBM with xFreeList })
    | some pBuff => do
      let (_, xAllocList) ← pFBM.xAllocList.pushBack pBuff push
      pure (some pBuff, { pFBM with
        xFreeList, xAllocList, ulSize := Function.update pFBM.ulSize pBuff ulSize })
  else pure (none, pFBM)

/-- `FTE_FBM_free`; `FTE_LIST_remove` asserts that the pointer is not `NULL`. -/
def fbmFree (pFBM : Fbm) (pBlock : Option Nat) (remove push : Memory) : Run Key Fbm :=
  match pBlock with
  | none => Run.stop
  | some pBlock => do
    let (xRet, xAllocList) ← pFBM.xAllocList.remove pBlock remove
    if xRet = retOk then do
      let (_, xFreeList) ← pFBM.xFreeList.pushBack pBlock push
      pure { pFBM with xAllocList, xFreeList }
    else pure { pFBM with xAllocList }

/-- The manager, and the buffers that its callers have got and not freed since. -/
structure FbmUse where
  pFBM : Fbm
  held : List Nat

inductive FbmCall where
  | alloc (ulSize : UInt32) (pop push : Memory)
  | free (pBlock : Option Nat) (remove push : Memory)

/-- A call that returns. -/
def fbmStep (s : FbmUse) : FbmCall → Option FbmUse
  | .alloc ulSize pop push =>
    match (fbmAlloc s.pFBM ulSize pop push).outcome with
    | .returned (pAlloc, pFBM) => some ⟨pFBM, s.held ++ pAlloc.toList⟩
    | _ => none
  | .free pBlock remove push =>
    match (fbmFree s.pFBM pBlock remove push).outcome with
    | .returned pFBM => some ⟨pFBM, s.held.filter (some · != pBlock)⟩
    | _ => none

/-- Each of the buffers is in one of the lists once, none is with two callers, and none was given for
more than it holds. -/
structure Conserved (s : FbmUse) : Prop where
  once : ∀ b < s.pFBM.ulMaxCount.toNat,
    s.pFBM.xFreeList.items.count b + s.pFBM.xAllocList.items.count b = 1
  held : s.held.Nodup
  fits : ∀ b ∈ s.held, s.pFBM.ulSize b ≤ s.pFBM.ulUnit

/-- What keeps the buffers: there is memory for the node of one that moves, and none is asked for
more than it holds. -/
def FbmKept (s : FbmUse) : FbmCall → Prop
  | .alloc ulSize _ push =>
    s.pFBM.xFreeList.items ≠ [] → ulSize ≤ s.pFBM.ulUnit ∧ push.node = true
  | .free pBlock _ push => ∀ b ∈ pBlock, b ∈ s.pFBM.xAllocList.items → push.node = true

/-- The lists share out the buffers, and the callers have those of the second. -/
structure FbmSound (s : FbmUse) : Prop where
  perm : (s.pFBM.xFreeList.items ++ s.pFBM.xAllocList.items).Perm
    (List.range s.pFBM.ulMaxCount.toNat)
  held : s.held = s.pFBM.xAllocList.items
  fits : ∀ b ∈ s.held, s.pFBM.ulSize b ≤ s.pFBM.ulUnit

end Definitions

section Calls

variable {pFBM : Fbm} {push : Memory}

theorem fbmAlloc_returned {ulSize : UInt32} {pop : Memory} {r : Option Nat × Fbm}
    (h : (fbmAlloc pFBM ulSize pop push).outcome = .returned r) :
    pFBM.xFreeList.items = [] ∧ r = (none, pFBM) ∨
      ∃ b xFreeList xAllocList, pFBM.xFreeList.items = b :: xFreeList.items ∧
        xAllocList.items = (if push.node then pFBM.xAllocList.items ++ [b]
          else pFBM.xAllocList.items) ∧
        r = (some b, { pFBM with
          xFreeList, xAllocList, ulSize := Function.update pFBM.ulSize b ulSize }) := by
  rw [fbmAlloc] at h
  split at h
  next hcount =>
    obtain ⟨⟨xRet, pBuff, xFreeList⟩, hpop, h⟩ := Run.returned_bind h
    obtain ⟨hbuff, hrest⟩ := FteList.popFront_returned hpop
    cases hitems : pFBM.xFreeList.items with
    | nil => simp [FteList.count, hitems] at hcount
    | cons b items =>
      rw [hitems] at hbuff hrest
      obtain rfl : pBuff = some b := hbuff
      obtain ⟨⟨xRet, xAllocList⟩, hpush, h⟩ := Run.returned_bind h
      cases h
      refine .inr ⟨b, xFreeList, xAllocList, ?_, FteList.push_returned hpush, rfl⟩
      rw [show xFreeList.items = items from hrest]
  next hcount =>
    cases h
    exact .inl ⟨by simpa [FteList.count] using hcount, rfl⟩

theorem fbmFree_returned {pBlock : Option Nat} {remove : Memory} {r : Fbm}
    (h : (fbmFree pFBM pBlock remove push).outcome = .returned r) :
    ∃ b xFreeList xAllocList, pBlock = some b ∧ r = { pFBM with xFreeList, xAllocList } ∧
      xAllocList.items = pFBM.xAllocList.items.erase b ∧
      xFreeList.items = (if b ∈ pFBM.xAllocList.items ∧ push.node = true then
        pFBM.xFreeList.items ++ [b] else pFBM.xFreeList.items) := by
  cases pBlock with
  | none => cases h
  | some b =>
    obtain ⟨⟨xRet, xAllocList⟩, hremove, h⟩ := Run.returned_bind h
    obtain ⟨hret, hitems⟩ := FteList.remove_returned hremove
    dsimp only at h hret hitems
    split at h
    next hok =>
      obtain ⟨⟨xRet, xFreeList⟩, hpush, h⟩ := Run.returned_bind h
      cases h
      refine ⟨b, xFreeList, xAllocList, rfl, rfl, hitems, ?_⟩
      have hpushed := FteList.push_returned hpush
      simpa [hret.mp hok] using hpushed
    next hok =>
      cases h
      refine ⟨b, pFBM.xFreeList, xAllocList, rfl, rfl, hitems, ?_⟩
      rw [if_neg fun hand => hok (hret.mpr hand.1)]
end Calls

section Create

theorem fbmFill_returned {room : Nat → Bool × Memory} {k i : Nat} {pList pFree : FteList Nat}
    (h : (fbmFill room k i pList).outcome = .returned (some pFree)) :
    pFree.items = pList.items ++ (List.range' i k).filter fun j => (room j).2.node := by
  induction k generalizing i pList with
  | zero =>
    cases h
    simp
  | succ k ih =>
    rw [fbmFill] at h
    split at h
    · obtain ⟨⟨xRet, pNext⟩, hpush, h⟩ := Run.returned_bind h
      have hnext : pNext.items = if (room i).2.node then pList.items ++ [i] else pList.items :=
        FteList.push_returned hpush
      rw [ih h, hnext, List.range'_succ, List.filter_cons]
      split <;> simp
    · cases h

theorem fbmCreate_returned {ulUnit ulMaxCount : UInt32} {fbm : Bool} {room : Nat → Bool × Memory}
    {pFBM : Fbm} (h : (fbmCreate ulUnit ulMaxCount fbm room).outcome = .returned (some pFBM)) :
    pFBM.ulMaxCount = ulMaxCount ∧ pFBM.xAllocList.items = [] ∧
      pFBM.xFreeList.items = (List.range ulMaxCount.toNat).filter fun j => (room j).2.node := by
  rw [fbmCreate] at h
  split at h
  · obtain ⟨pFree, hfill, h⟩ := Run.returned_bind h
    cases pFree with
    | none => cases h
    | some xFreeList =>
      cases h
      have hitems := fbmFill_returned hfill
      rw [List.range_eq_range']
      exact ⟨rfl, rfl, hitems⟩
  · cases h

end Create

section Conservation

variable {u v : FbmUse}

theorem FbmSound.nodup (h : FbmSound u) :
    (u.pFBM.xFreeList.items ++ u.pFBM.xAllocList.items).Nodup :=
  h.perm.nodup_iff.mpr List.nodup_range

theorem FbmSound.conserved (h : FbmSound u) : Conserved u where
  once b hb := by
    rw [← List.count_append, h.perm.count_eq]
    exact List.count_eq_one_of_mem List.nodup_range (List.mem_range.mpr hb)
  held := by
    rw [h.held]
    exact h.nodup.of_append_right
  fits := h.fits

theorem Conserved.mem_allocList (h : Conserved u) {b : Nat} (hb : b < u.pFBM.ulMaxCount.toNat)
    (hfree : b ∉ u.pFBM.xFreeList.items) : b ∈ u.pFBM.xAllocList.items := by
  have hone := h.once b hb
  rw [List.count_eq_zero_of_not_mem hfree, Nat.zero_add] at hone
  exact List.count_pos_iff.mp (by omega)

theorem fbmStep_alloc {ulSize : UInt32} {pop push : Memory}
    (hs : fbmStep u (.alloc ulSize pop push) = some v) :
    u.pFBM.xFreeList.items = [] ∧ v = u ∨
      ∃ b xFreeList xAllocList, u.pFBM.xFreeList.items = b :: xFreeList.items ∧
        xAllocList.items = (if push.node then u.pFBM.xAllocList.items ++ [b]
          else u.pFBM.xAllocList.items) ∧
        v = ⟨{ u.pFBM with
          xFreeList, xAllocList, ulSize := Function.update u.pFBM.ulSize b ulSize },
          u.held ++ [b]⟩ := by
  rw [fbmStep] at hs
  split at hs
  next pAlloc pFBM hrun =>
    cases hs
    rcases fbmAlloc_returned hrun with ⟨hnil, hr⟩ | ⟨b, xFreeList, xAllocList, hfree, halloc, hr⟩
    · cases hr
      exact .inl ⟨hnil, by rw [Option.toList_none, List.append_nil]⟩
    · cases hr
      exact .inr ⟨b, xFreeList, xAllocList, hfree, halloc, rfl⟩
  next => contradiction

theorem fbmStep_free {pBlock : Option Nat} {remove push : Memory}
    (hs : fbmStep u (.free pBlock remove push) = some v) :
    ∃ b xFreeList xAllocList, pBlock = some b ∧
      v = ⟨{ u.pFBM with xFreeList, xAllocList }, u.held.filter (· != b)⟩ ∧
      xAllocList.items = u.pFBM.xAllocList.items.erase b ∧
      xFreeList.items = (if b ∈ u.pFBM.xAllocList.items ∧ push.node = true then
        u.pFBM.xFreeList.items ++ [b] else u.pFBM.xFreeList.items) := by
  rw [fbmStep] at hs
  split at hs
  next pFBM hrun =>
    cases hs
    obtain ⟨b, xFreeList, xAllocList, rfl, rfl, halloc, hfree⟩ := fbmFree_returned hrun
    refine ⟨b, xFreeList, xAllocList, rfl, ?_, halloc, hfree⟩
    simp [bne]
  next => contradiction

theorem sound_step {a : FbmCall} (h : FbmSound u) (hkept : FbmKept u a)
    (hs : fbmStep u a = some v) : FbmSound v := by
  cases a with
  | alloc ulSize pop push =>
    rcases fbmStep_alloc hs with ⟨-, rfl⟩ | ⟨b, xFreeList, xAllocList, hfree, halloc, rfl⟩
    · exact h
    · obtain ⟨hsize, hnode⟩ := hkept (by simp [hfree])
      rw [if_pos hnode] at halloc
      have hperm := h.perm
      rw [hfree] at hperm
      refine ⟨?_, ?_, ?_⟩
      · refine (List.Perm.trans ?_ hperm)
        rw [halloc, ← List.append_assoc]
        exact List.perm_append_singleton b _
      · rw [halloc, h.held]
      · intro c hc
        dsimp only at hc ⊢
        by_cases hcb : c = b
        · rw [hcb, Function.update_self]
          exact hsize
        · rw [Function.update_of_ne hcb]
          rcases List.mem_append.mp hc with hc | hc
          · exact h.fits c hc
          · exact absurd (List.mem_singleton.mp hc) hcb
  | free pBlock remove push =>
    obtain ⟨b, xFreeList, xAllocList, rfl, rfl, halloc, hfree⟩ := fbmStep_free hs
    have hnodup := h.nodup.of_append_right
    refine ⟨?_, ?_, fun c hc => h.fits c (List.mem_of_mem_filter hc)⟩
    · rw [halloc, hfree]
      by_cases hmem : b ∈ u.pFBM.xAllocList.items
      · rw [if_pos ⟨hmem, hkept b rfl hmem⟩, List.append_assoc]
        refine List.Perm.trans ?_ h.perm
        exact (List.perm_cons_erase hmem).symm.append_left _
      · rw [if_neg fun hand => hmem hand.1, List.erase_of_not_mem hmem]
        exact h.perm
    · rw [halloc, h.held, hnodup.erase_eq_filter]

theorem broken_step {a : FbmCall} (h : FbmSound u) (hkept : ¬ FbmKept u a)
    (hs : fbmStep u a = some v) : ¬ Conserved v := by
  cases a with
  | alloc ulSize pop push =>
    rcases fbmStep_alloc hs with ⟨hnil, rfl⟩ | ⟨b, xFreeList, xAllocList, hfree, halloc, rfl⟩
    · exact absurd (fun hne => absurd hnil hne) hkept
    · have hnodup := h.nodup
      have hrange := h.perm
      rw [hfree, List.cons_append] at hnodup hrange
      have hb : b < u.pFBM.ulMaxCount.toNat := List.mem_range.mp (hrange.subset List.mem_cons_self)
      have hb' := (List.nodup_cons.mp hnodup).1
      rw [List.mem_append, not_or] at hb'
      intro hconserved
      apply hkept
      intro hne
      constructor
      · have hfits := hconserved.fits b (List.mem_append_right _ (List.mem_singleton.mpr rfl))
        simpa using hfits
      · by_contra hnode
        rw [if_neg hnode] at halloc
        have hmem := hconserved.mem_allocList hb hb'.1
        rw [halloc] at hmem
        exact hb'.2 hmem
  | free pBlock remove push =>
    obtain ⟨b, xFreeList, xAllocList, rfl, rfl, halloc, hfree⟩ := fbmStep_free hs
    simp only [FbmKept, Option.mem_some, forall_eq', Classical.not_imp] at hkept
    obtain ⟨hmem, hnode⟩ := hkept
    rw [if_neg fun hand => hnode hand.2] at hfree
    have hb : b < u.pFBM.ulMaxCount.toNat :=
      List.mem_range.mp (h.perm.subset (List.mem_append_right _ hmem))
    have hlost : b ∉ xFreeList.items := by
      rw [hfree]
      exact fun hb => List.disjoint_of_nodup_append h.nodup hb hmem
    intro hconserved
    have hheld := hconserved.mem_allocList hb hlost
    rw [halloc] at hheld
    exact (h.nodup.of_append_right.mem_erase_iff.mp hheld).1 rfl

theorem sound_create {pFBM : Fbm} (halloc : pFBM.xAllocList.items = [])
    (hfree : pFBM.xFreeList.items = List.range pFBM.ulMaxCount.toNat) : FbmSound ⟨pFBM, []⟩ where
  perm := by rw [halloc, hfree, List.append_nil]
  held := halloc.symm
  fits _ hb := absurd hb List.not_mem_nil

/-- Throughout a run on a new manager each buffer is in one of the lists, no two callers have the same
and none is too small exactly when there was memory for every node that a push needed, and no request
that was met was larger than the unit. -/
theorem fbm_conserved_iff {ulUnit ulMaxCount : UInt32} {fbm : Bool} {room : Nat → Bool × Memory}
    {pFBM : Fbm} {t : FbmUse} {calls : List FbmCall}
    (hcreate : (fbmCreate ulUnit ulMaxCount fbm room).outcome = .returned (some pFBM))
    (ht : exec fbmStep calls ⟨pFBM, []⟩ = some t) :
    (∀ u, Visits fbmStep ⟨pFBM, []⟩ calls u → Conserved u) ↔
      (∀ i < ulMaxCount.toNat, (room i).2.node = true) ∧
        ∀ u a, Takes fbmStep ⟨pFBM, []⟩ calls u a → FbmKept u a := by
  obtain ⟨hcount, halloc, hfree⟩ := fbmCreate_returned hcreate
  have hfull : (∀ i < ulMaxCount.toNat, (room i).2.node = true) → FbmSound ⟨pFBM, []⟩ := by
    intro hnode
    apply sound_create halloc
    rw [hfree, hcount]
    apply List.filter_eq_self.mpr
    intro i hi
    exact hnode i (List.mem_range.mp hi)
  have hrun (hs : FbmSound ⟨pFBM, []⟩) := visits_iff_takes hs
    (fun _ _ _ h hkept hs => sound_step h hkept hs) (fun _ h => h.conserved)
    (fun _ _ _ h hkept hs => broken_step h hkept hs) ht
  constructor
  · intro h
    have hstart := h ⟨pFBM, []⟩ ⟨[], List.nil_prefix, rfl⟩
    have hnode : ∀ i < ulMaxCount.toNat, (room i).2.node = true := by
      intro i hi
      by_contra hnode
      have hlost : i ∉ pFBM.xFreeList.items := by
        rw [hfree]
        exact fun hmem => hnode (List.mem_filter.mp hmem).2
      have hmem := hstart.mem_allocList (by rw [hcount]; exact hi) hlost
      rw [halloc] at hmem
      exact absurd hmem List.not_mem_nil
    exact ⟨hnode, (hrun (hfull hnode)).mp h⟩
  · rintro ⟨hnode, hkept⟩
    exact (hrun (hfull hnode)).mpr hkept

end Conservation

section Uses

instance (s : FbmUse) : DecidablePred (FbmKept s)
  | .alloc _ _ _ => inferInstanceAs (Decidable (_ → _ ∧ _))
  | .free _ _ _ => inferInstanceAs (Decidable (∀ b ∈ _, _ → _))

def enough : Memory := ⟨true, some 1, true⟩

/-- A manager of two buffers of four bytes. -/
def twoBuffers : Fbm := ⟨4, 2, ⟨none, none⟩, ⟨some [0, 1], some 1⟩, fun _ => 0⟩

theorem twoBuffers_create :
    (fbmCreate 4 2 true fun _ => (true, enough)).outcome = .returned (some twoBuffers) := rfl

/-- A buffer of four bytes is given for a request of five; and one that is freed when there is no
memory for a node is in neither list. -/
theorem fbm_oversize_and_lost :
    (fbmCreate 4 2 true fun _ => (true, enough)).outcome = .returned (some twoBuffers) ∧
      (∃ t, exec fbmStep [.alloc 5 enough enough] ⟨twoBuffers, []⟩ = some t ∧ ¬ Conserved t) ∧
      ∃ t, exec fbmStep [.alloc 4 enough enough, .free (some 0) enough ⟨true, some 1, false⟩]
        ⟨twoBuffers, []⟩ = some t ∧ ¬ Conserved t := by
  refine ⟨twoBuffers_create, ⟨_, rfl, fun h => ?_⟩, ⟨_, rfl, fun h => ?_⟩⟩
  · have hfits := h.fits 0 (by decide)
    exact absurd hfits (by decide)
  · have hone := h.once 0 (by decide)
    exact absurd hone (by decide)

/-- A third request finds nothing, a buffer is freed twice, and a foreign one is. -/
def fbmCalls : List FbmCall :=
  [.alloc 4 enough enough, .alloc 2 enough enough, .alloc 1 enough enough,
    .free (some 0) enough enough, .free (some 0) enough enough, .free (some 7) enough enough,
    .alloc 3 enough enough]

theorem fbm_conserved_calls : ∃ t, exec fbmStep fbmCalls ⟨twoBuffers, []⟩ = some t ∧ Conserved t := by
  refine ⟨_, rfl, ?_⟩
  have hrun : exec fbmStep fbmCalls ⟨twoBuffers, []⟩ = some _ := rfl
  exact (fbm_conserved_iff twoBuffers_create hrun).mpr
    ⟨fun _ _ => rfl, takes_of_along (by decide)⟩ _ ⟨fbmCalls, List.prefix_rfl, rfl⟩

end Uses

end EdgeNode.Sys
