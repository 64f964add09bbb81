import EdgeNode.Config.Counters
import EdgeNode.Lib.Cursor

/-! The walks over the object pool and the event pool, by which the objects and the events are
created at boot. -/

namespace EdgeNode.Config

open Cursor Runs

section Definitions

/-- `FTE_CFG_OBJ_getFirst` and `FTE_CFG_EVENT_getFirst`: the slot, and `_config.ulIndex`. -/
def getFirst (count ulIndex : UInt32) : Option Nat × UInt32 :=
  if count ≠ 0 then (some 0, 0) else (none, ulIndex)

/-- `FTE_CFG_OBJ_getNext` and `FTE_CFG_EVENT_getNext`. -/
def getNext (count ulIndex : UInt32) : Option Nat × UInt32 :=
  if ulIndex + 1 < count then (some (ulIndex + 1).toNat, ulIndex + 1) else (none, ulIndex + 1)

def objGetFirst (p : ObjectPool) : UInt32 → Option Nat × UInt32 := getFirst p.uiObjectCount
def objGetNext (p : ObjectPool) : UInt32 → Option Nat × UInt32 := getNext p.uiObjectCount
def eventGetFirst (p : EventPool) : UInt32 → Option Nat × UInt32 := getFirst p.uiEventCount
def eventGetNext (p : EventPool) : UInt32 → Option Nat × UInt32 := getNext p.uiEventCount

/-- The loop over the slots that counts `ulIdx` down at each that matches. -/
def findAt {α : Type} (matching : α → Bool) : List α → UInt32 → Option Nat
  | [], _ => none
  | a :: slots, ulIdx =>
    if matching a then
      if ulIdx = 0 then some 0 else (findAt matching slots (ulIdx - 1)).map (· + 1)
    else (findAt matching slots ulIdx).map (· + 1)

/-- `FTE_CFG_OBJ_getAt`, which without a mask takes the index for the slot. -/
def objGetAt (p : ObjectPool) (oid ulMask ulIdx : UInt32) : Option Nat :=
  if ulIdx < p.uiObjectCount then
    if ulMask = 0 then some ulIdx.toNat
    else findAt (fun c => c.nID ≠ 0 && c.nID &&& ulMask == oid &&& ulMask) p.pObjects ulIdx
  else none

def eventGetAt (p : EventPool) (ulIndex : UInt32) : Option Nat :=
  if ulIndex < p.uiEventCount then findAt (fun e => e.ulEPID ≠ 0) p.pEvents ulIndex else none

variable {α : Type} (key : α → UInt32)

def InUse (slots : List α) (i : Nat) : Prop := ∃ a ∈ slots[i]?, key a ≠ 0

/-- The slots in use, each once, and no others. -/
structure Enumerates (slots : List α) (visited : List Nat) : Prop where
  nodup : visited.Nodup
  mem_iff : ∀ i, i ∈ visited ↔ InUse key slots i

/-- The slots in use that match, among those visited. -/
def visitedMatching (slots : List α) (visited : List Nat) (matching : α → Bool) : List Nat :=
  visited.filter fun i => slots[i]?.any matching

/-- What the walks over the objects are to give. -/
structure ObjectsWalked (p : ObjectPool) (visited : List Nat) : Prop where
  walk : ∀ ulIndex, Drains (objGetNext p) (objGetFirst p ulIndex) visited
  enumerates : Enumerates ObjectConfig.nID p.pObjects visited
  getAt : ∀ oid k, objGetAt p oid 0 k = visited[k.toNat]?
  masked : ∀ oid ulMask k, ulMask ≠ 0 → objGetAt p oid ulMask k =
    (visitedMatching p.pObjects visited fun c => c.nID &&& ulMask == oid &&& ulMask)[k.toNat]?

structure EventsWalked (p : EventPool) (visited : List Nat) : Prop where
  walk : ∀ ulIndex, Drains (eventGetNext p) (eventGetFirst p ulIndex) visited
  enumerates : Enumerates EventConfig.ulEPID p.pEvents visited
  getAt : ∀ k, eventGetAt p k = visited[k.toNat]?

def Walked (r : Ram) : Prop :=
  (∃ visited, ObjectsWalked (r.page .object).body visited) ∧
    ∃ visited, EventsWalked (r.page .event).body visited

/-- The calls that leave no hole: an object is not only reserved where a slot is empty, what is freed
stands in the last slot in use, and no event without an endpoint is put in an empty slot. -/
def WalkKept (r : Ram) : PoolAction → Prop
  | .objAlloc _ => Full ObjectConfig.nID (r.page .object).body.pObjects
  | .objCreate _ _ => True
  | .objFree oid => (r.page .object).body.uiObjectCount ≠ 0 →
      ∀ i ∈ (r.page .object).body.pObjects.findIdx? fun c => c.nID == oid,
        i + 1 = (r.page .object).body.uiObjectCount.toNat
  | .eventAlloc ulOID => ulOID = 0 → Full EventConfig.ulEPID (r.page .event).body.pEvents
  | .eventCreate pConfig =>
    pConfig.ulEPID = 0 → Full EventConfig.ulEPID (r.page .event).body.pEvents
  | .eventFree i => (r.page .event).body.uiEventCount ≠ 0 → i < (r.page .event).body.pEvents.length →
      i + 1 = (r.page .event).body.uiEventCount.toNat

/-- The slots in use are the first ones, as many as the counter says. -/
def Compact (count : UInt32) (slots : List α) : Prop := ∀ i, i < count.toNat ↔ InUse key slots i

end Definitions

section Walk

variable {α : Type} {key : α → UInt32} {count : UInt32} {slots : List α}

theorem getNext_ofNat {i : Nat} (hi : i < count.toNat) : getNext count (UInt32.ofNat i) =
    ((List.range count.toNat)[i + 1]?, UInt32.ofNat (i + 1)) := by
  have hcount := count.toNat_lt
  have hsucc : UInt32.ofNat i + 1 = UInt32.ofNat (i + 1) := (UInt32.ofNat_add i 1).symm
  have hnat : (UInt32.ofNat (i + 1)).toNat = i + 1 := by
    rw [UInt32.toNat_ofNat', Nat.mod_eq_of_lt (by omega)]
  rw [getNext, hsucc, hnat]
  split
  next hlt =>
    rw [UInt32.lt_iff_toNat_lt, hnat] at hlt
    rw [List.getElem?_range hlt]
  next hge =>
    rw [UInt32.lt_iff_toNat_lt, hnat] at hge
    rw [List.getElem?_eq_none (by rw [List.length_range]; omega)]

/-- The walk goes over as many slots as the counter says, from the first one on. -/
theorem drains_range (count ulIndex : UInt32) :
    Drains (getNext count) (getFirst count ulIndex) (List.range count.toNat) := by
  by_cases hzero : count = 0
  · subst hzero
    exact .done ulIndex
  · have hpos : 0 < count.toNat := Nat.pos_of_ne_zero fun h => hzero (UInt32.toNat_inj.mp h)
    have hfirst : getFirst count ulIndex = ((List.range count.toNat)[0]?, UInt32.ofNat 0) := by
      rw [getFirst, if_pos hzero, List.getElem?_range hpos]
      rfl
    rw [hfirst]
    refine drains_list fun i hi => getNext_ofNat ?_
    rwa [List.length_range] at hi

theorem findAt_eq (matching : α → Bool) (slots : List α) (k : UInt32) : findAt matching slots k =
    (visitedMatching slots (List.range slots.length) matching)[k.toNat]? := by
  induction slots generalizing k with
  | nil => rfl
  | cons a slots ih =>
    have htail : visitedMatching (a :: slots) (List.range (a :: slots).length) matching =
        (if matching a then [0] else []) ++
          (visitedMatching slots (List.range slots.length) matching).map (· + 1) := by
      rw [visitedMatching, List.length_cons, List.range_succ_eq_map, List.filter_cons,
        List.filter_map]
      cases hm : matching a <;> simp [hm, visitedMatching, Function.comp_def]
    rw [findAt, htail]
    by_cases hm : matching a = true
    · rw [if_pos hm, if_pos hm, List.singleton_append]
      by_cases hk : k = 0
      · subst hk
        rfl
      · have hpos : 0 < k.toNat := Nat.pos_of_ne_zero fun h => hk (UInt32.toNat_inj.mp h)
        have hpred : k.toNat = (k - 1).toNat + 1 := by
          rw [Words.toNat_pred hpos, Nat.sub_add_cancel hpos]
        rw [if_neg hk, ih, hpred, List.getElem?_cons_succ, List.getElem?_map]
    · rw [if_neg hm, if_neg hm, ih, List.nil_append, List.getElem?_map]

theorem Compact.le_length (h : Compact key count slots) : count.toNat ≤ slots.length := by
  by_contra hlt
  obtain ⟨a, ha, -⟩ := (h slots.length).mp (by omega)
  simp at ha

theorem Compact.enumerates (h : Compact key count slots) :
    Enumerates key slots (List.range count.toNat) := by
  refine ⟨List.nodup_range, fun i => ?_⟩
  rw [List.mem_range]
  exact h i

/-- Among the first slots stand all that can match. -/
theorem Compact.all_matching (h : Compact key count slots) (matching : α → Bool)
    (hm : ∀ a, matching a = true → key a ≠ 0) :
    visitedMatching slots (List.range slots.length) matching =
      visitedMatching slots (List.range count.toNat) matching := by
  have hle := h.le_length
  have hsplit : slots.length = count.toNat + (slots.length - count.toNat) := by omega
  have hrest : ((List.range (slots.length - count.toNat)).map (count.toNat + ·)).filter
      (fun i => slots[i]?.any matching) = [] := by
    rw [List.filter_eq_nil_iff]
    intro i hi hmatch
    obtain ⟨j, -, rfl⟩ := List.mem_map.mp hi
    obtain ⟨a, ha, hmatch⟩ := (Option.any_eq_true _ _).mp hmatch
    have := (h (count.toNat + j)).mpr ⟨a, ha, hm a hmatch⟩
    omega
  rw [visitedMatching, hsplit, List.range_add, List.filter_append, hrest, List.append_nil]
  rfl

end Walk

section Pools

variable {p : ObjectPool} {q : EventPool} {visited : List Nat}

theorem getElem?_of_lt_count {count k : UInt32} {l : List Nat} (hl : l.length ≤ count.toNat) :
    (if k < count then l[k.toNat]? else none) = l[k.toNat]? := by
  split
  next => rfl
  next hge =>
    rw [UInt32.lt_iff_toNat_lt] at hge
    rw [List.getElem?_eq_none (by omega)]

theorem visitedMatching_length {α : Type} (slots : List α) (count : UInt32) (matching : α → Bool) :
    (visitedMatching slots (List.range count.toNat) matching).length ≤ count.toNat :=
  Nat.le_trans (List.length_filter_le _ _) (Nat.le_of_eq List.length_range)

theorem Compact.objectsWalked (h : Compact ObjectConfig.nID p.uiObjectCount p.pObjects) :
    ObjectsWalked p (List.range p.uiObjectCount.toNat) := by
  refine ⟨drains_range _, h.enumerates, fun oid k => ?_, fun oid ulMask k hmask => ?_⟩
  · rw [objGetAt, if_pos rfl]
    split
    next hlt => rw [List.getElem?_range (UInt32.lt_iff_toNat_lt.mp hlt)]
    next hge =>
      rw [UInt32.lt_iff_toNat_lt] at hge
      rw [List.getElem?_eq_none (by rw [List.length_range]; omega)]
  · have hused : visitedMatching p.pObjects (List.range p.uiObjectCount.toNat)
        (fun c => c.nID ≠ 0 && c.nID &&& ulMask == oid &&& ulMask) =
        visitedMatching p.pObjects (List.range p.uiObjectCount.toNat)
          fun c => c.nID &&& ulMask == oid &&& ulMask := by
      refine List.filter_congr fun i hi => ?_
      obtain ⟨c, hc, hne⟩ := (h i).mp (List.mem_range.mp hi)
      rw [Option.mem_def.mp hc]
      simp [hne]
    have hfind := h.all_matching
      (fun c => c.nID ≠ 0 && c.nID &&& ulMask == oid &&& ulMask)
      fun c hc => by simpa using (Bool.and_eq_true_iff.mp hc).1
    rw [objGetAt, if_neg hmask, findAt_eq, hfind, hused]
    exact getElem?_of_lt_count (visitedMatching_length _ _ _)

theorem Compact.eventsWalked (h : Compact EventConfig.ulEPID q.uiEventCount q.pEvents) :
    EventsWalked q (List.range q.uiEventCount.toNat) := by
  refine ⟨drains_range _, h.enumerates, fun k => ?_⟩
  have hall : visitedMatching q.pEvents (List.range q.uiEventCount.toNat)
      (fun e => decide (e.ulEPID ≠ 0)) = List.range q.uiEventCount.toNat := by
    refine List.filter_eq_self.mpr fun i hi => ?_
    obtain ⟨e, he, hne⟩ := (h i).mp (List.mem_range.mp hi)
    rw [Option.mem_def.mp he]
    simpa using hne
  have hfind := h.all_matching (fun e => decide (e.ulEPID ≠ 0))
    fun e he => of_decide_eq_true he
  rw [eventGetAt, findAt_eq, hfind, hall]
  exact getElem?_of_lt_count (Nat.le_of_eq List.length_range)

theorem Enumerates.compact {α : Type} {key : α → UInt32} {slots : List α} {count ulIndex : UInt32}
    (h : Enumerates key slots visited)
    (hwalk : Drains (getNext count) (getFirst count ulIndex) visited) :
    Compact key count slots := by
  intro i
  rw [← h.mem_iff, hwalk.unique (drains_range count ulIndex), List.mem_range]

theorem walked_iff (r : Ram) : Walked r ↔
    Compact ObjectConfig.nID (r.page .object).body.uiObjectCount (r.page .object).body.pObjects ∧
      Compact EventConfig.ulEPID (r.page .event).body.uiEventCount (r.page .event).body.pEvents := by
  constructor
  · rintro ⟨⟨visited, hobject⟩, ⟨visited', hevent⟩⟩
    exact ⟨hobject.enumerates.compact (hobject.walk 0), hevent.enumerates.compact (hevent.walk 0)⟩
  · rintro ⟨hobject, hevent⟩
    exact ⟨⟨_, hobject.objectsWalked⟩, ⟨_, hevent.eventsWalked⟩⟩

end Pools

section Slots

variable {α : Type} {key : α → UInt32} {max i j : Nat} {count : UInt32} {slots : List α} {a : α}

theorem inUse_getElem (hi : i < slots.length) : InUse key slots i ↔ key slots[i] ≠ 0 := by
  simp [InUse, List.getElem?_eq_getElem hi]

theorem inUse_set (hi : i < slots.length) :
    InUse key (slots.set i a) j ↔ if j = i then key a ≠ 0 else InUse key slots j := by
  unfold InUse
  split
  next h =>
    subst h
    simp [List.getElem?_set_self hi]
  next h => rw [List.getElem?_set_ne (Ne.symm h)]

theorem Compact.take_iff (h : Compact key count slots) (hmax : slots.length < 2 ^ 32)
    (hi : i < slots.length) (hz : key slots[i] = 0)
    (hfirst : ∀ j (hj : j < i), key slots[j] ≠ 0) :
    Compact key (count + 1) (slots.set i a) ↔ key a ≠ 0 := by
  have hcount : count.toNat = i := by
    refine Nat.le_antisymm (Nat.not_lt.mp fun hlt => ?_) (Nat.not_lt.mp fun hlt => ?_)
    · exact (inUse_getElem hi).mp ((h i).mp hlt) hz
    · exact absurd ((h count.toNat).mpr ((inUse_getElem (by omega)).mpr (hfirst _ hlt)))
        (Nat.lt_irrefl _)
  have hnext : (count + 1).toNat = i + 1 := by
    rw [UInt32.toNat_add, UInt32.toNat_one, hcount, Nat.mod_eq_of_lt (by omega)]
  constructor
  · intro hc
    have huse := (hc i).mp (by omega)
    rwa [inUse_set hi, if_pos rfl] at huse
  · intro ha j
    rw [hnext, inUse_set hi, ← h j, hcount]
    split
    next hj => exact iff_of_true (by omega) ha
    next hj => exact ⟨fun hlt => by omega, fun hlt => by omega⟩

/-- Only the last object or event can be freed without a hole. -/
theorem Compact.free_iff (h : Compact key count slots) (hcount : count ≠ 0) (hi : i < slots.length)
    (ha : key a = 0) : Compact key (count - 1) (slots.set i a) ↔ i + 1 = count.toNat := by
  have hpos : 0 < count.toNat := Nat.pos_of_ne_zero fun hz => hcount (UInt32.toNat_inj.mp hz)
  have hpred := Words.toNat_pred hpos
  constructor
  · intro hc
    have hempty : ¬ i < count.toNat - 1 := by
      rw [← hpred, hc i, inUse_set hi, if_pos rfl]
      exact not_not.mpr ha
    by_contra hne
    have hlast : InUse key (slots.set i a) (count.toNat - 1) := by
      rw [inUse_set hi, if_neg (by omega)]
      exact (h _).mp (by omega)
    have := (hc _).mpr hlast
    omega
  · intro hlast j
    rw [hpred, inUse_set hi, ← h j]
    split
    next hj => exact iff_of_false (by omega) (not_not.mpr ha)
    next hj => omega

theorem Compact.count_unique {count' : UInt32} (h : Compact key count slots)
    (h' : Compact key count' slots) : count = count' := by
  have hlt : ∀ i, i < count.toNat ↔ i < count'.toNat := fun i => (h i).trans (h' i).symm
  have hle := (hlt count'.toNat).not.mpr (Nat.lt_irrefl _)
  have hge := (hlt count.toNat).not.mp (Nat.lt_irrefl _)
  exact UInt32.toNat_inj.mp (by omega)

theorem Compact.used_eq (h : Compact key count slots) : count.toNat = used key slots := by
  have hfront : (slots.take count.toNat).countP (fun a => key a != 0) =
      (slots.take count.toNat).length := by
    refine List.countP_eq_length.mpr fun a ha => ?_
    obtain ⟨j, hj, rfl⟩ := List.mem_iff_getElem.mp ha
    rw [List.length_take] at hj
    rw [List.getElem_take]
    simpa using (inUse_getElem (by omega)).mp ((h j).mp (by omega))
  have hback : (slots.drop count.toNat).countP (fun a => key a != 0) = 0 := by
    refine List.countP_eq_zero.mpr fun a ha => ?_
    obtain ⟨j, hj, rfl⟩ := List.mem_iff_getElem.mp ha
    rw [List.length_drop] at hj
    rw [List.getElem_drop]
    intro hne
    have := (h (count.toNat + j)).mpr ((inUse_getElem (by omega)).mpr (by simpa using hne))
    omega
  rw [used, ← List.take_append_drop count.toNat slots, List.countP_append, hfront, hback,
    List.length_take, Nat.min_eq_left h.le_length, Nat.add_zero]

/-- A pool of `max` slots without holes. -/
structure Packed (key : α → UInt32) (max : Nat) (count : UInt32) (slots : List α) : Prop where
  length : slots.length = max
  compact : Compact key count slots

theorem Packed.counted (h : Packed key max count slots) : Counted key max count slots :=
  ⟨h.length, h.compact.used_eq⟩

end Slots

section Objects

variable {product : Product} {p p₁ : ObjectPool} {i : Nat} {c : ObjectConfig}

def ObjectsPacked (product : Product) (p : ObjectPool) : Prop :=
  Packed ObjectConfig.nID product.objMaxCount p.uiObjectCount p.pObjects

theorem objAlloc_first (h : objAlloc product p = some (i, p₁)) {j : Nat} (hj : j < i)
    (hlen : j < p.pObjects.length) : p.pObjects[j].nID ≠ 0 := by
  unfold objAlloc at h
  split at h
  · obtain ⟨k, hk, he⟩ := Option.map_eq_some_iff.mp h
    obtain ⟨_, _, hfirst⟩ := List.findIdx?_eq_some_iff_getElem.mp hk
    cases he
    simpa using hfirst j hj
  · cases h

theorem ObjectsPacked.put (h : ObjectsPacked product p) (hmax : product.objMaxCount < 2 ^ 32)
    (ha : objAlloc product p = some (i, p₁)) (hc : c.nID ≠ 0) :
    ObjectsPacked product (p₁.put i c) := by
  obtain ⟨hi, hz, hsame, hcount⟩ := objAlloc_cases ha
  have hlen := h.length
  rw [ObjectsPacked, ObjectPool.put, hsame, hcount]
  refine ⟨by rw [List.length_set, hlen], ?_⟩
  exact (h.compact.take_iff (by omega) hi hz fun j hj => objAlloc_first ha hj _).mpr hc

theorem objCreateChildren_packed (hmax : product.objMaxCount + 1 < 2 ^ 32) (nID ulGroupID : UInt32)
    (children : List ObjectConfig) (h : ObjectsPacked product p) :
    ObjectsPacked product (children.foldl (objCreateChild product nID ulGroupID) p) := by
  induction children generalizing p with
  | nil => exact h
  | cons child children ih =>
    refine ih ?_
    unfold objCreateChild
    split
    next => exact h
    next i p₁ ha =>
      have hle := objCount_le h.counted (by omega) ha (child.nID &&& objClassMask) objClassMask
      exact h.put (by omega) ha (newID_ne_zero (by omega))

theorem objCreate_packed {r : Ram} (h : ObjectsPacked product (r.page .object).body)
    (hmax : product.objMaxCount + 1 < 2 ^ 32) (pBase : ObjectConfig) (pChild : Nat → ObjectConfig) :
    ObjectsPacked product ((objCreate product pBase pChild r).2.page .object).body := by
  unfold objCreate
  split
  next => exact h
  next i p₁ ha =>
    have hle := objCount_le h.counted (by omega) ha (pBase.nID &&& objClassMask) objClassMask
    simp only [Ram.modify, Function.update_self]
    exact objCreateChildren_packed hmax _ _ _ (h.put (by omega) ha (newID_ne_zero (by omega)))

theorem objReserve_packed {r : Ram} (h : ObjectsPacked product (r.page .object).body) :
    ObjectsPacked product ((objReserve product r).page .object).body ↔
      Full ObjectConfig.nID (r.page .object).body.pObjects := by
  rw [← objAlloc_eq_none h.counted]
  unfold objReserve
  cases ha : objAlloc product (r.page .object).body with
  | none => exact iff_of_true h rfl
  | some x =>
    obtain ⟨-, -, hsame, hcount⟩ := objAlloc_cases ha
    refine iff_of_false (fun hp => ?_) nofun
    simp only [Ram.change, Function.update_self] at hp
    have hcompact := hp.compact
    rw [hsame] at hcompact
    have hnext := h.compact.count_unique hcompact
    simp [hcount] at hnext

theorem objFree_packed {r : Ram} (h : ObjectsPacked product (r.page .object).body) (oid : UInt32) :
    ObjectsPacked product ((objFree oid r).2.page .object).body ↔ WalkKept r (.objFree oid) := by
  unfold objFree WalkKept
  dsimp only
  by_cases hcount : (r.page .object).body.uiObjectCount = 0
  · rw [if_neg (not_not.mpr hcount)]
    exact iff_of_true h fun hne => absurd hcount hne
  · rw [if_pos hcount]
    split
    next i hfind =>
      obtain ⟨hi, -, -⟩ := List.findIdx?_eq_some_iff_getElem.mp hfind
      simp only [Ram.change, Function.update_self, Option.mem_def, hfind, Option.some.injEq,
        forall_eq', ne_eq, hcount, not_false_eq_true, true_imp_iff]
      rw [← h.compact.free_iff (a := zeroObject) hcount hi rfl]
      constructor
      · exact fun hp => hp.compact
      · exact fun hc => ⟨by rw [List.length_set, h.length], hc⟩
    next hnone =>
      refine iff_of_true h fun _ i hi => ?_
      rw [hnone] at hi
      cases hi

end Objects

section Events

variable {product : Product} {p : EventPool} {i : Nat} {e : EventConfig}

def EventsPacked (product : Product) (p : EventPool) : Prop :=
  Packed EventConfig.ulEPID product.eventMaxCount p.uiEventCount p.pEvents

theorem eventAlloc_first (h : eventAlloc product p = some i) {j : Nat} (hj : j < i)
    (hlen : j < p.pEvents.length) : p.pEvents[j].ulEPID ≠ 0 := by
  unfold eventAlloc at h
  split at h
  · obtain ⟨_, _, hfirst⟩ := List.findIdx?_eq_some_iff_getElem.mp h
    simpa using hfirst j hj
  · cases h

theorem EventsPacked.put_iff (h : EventsPacked product p) (hmax : product.eventMaxCount < 2 ^ 32)
    (ha : eventAlloc product p = some i) :
    EventsPacked product (p.put i e) ↔ (e.ulEPID = 0 → Full EventConfig.ulEPID p.pEvents) := by
  obtain ⟨hi, hz⟩ := eventAlloc_cases ha
  have hlen := h.length
  have hfull : ¬ Full EventConfig.ulEPID p.pEvents := fun hfull => hfull _ (List.getElem_mem hi) hz
  have hput := h.compact.take_iff (a := e) (by omega) hi hz fun j hj => eventAlloc_first ha hj _
  rw [imp_iff_not hfull, ← Ne, ← hput]
  constructor
  · exact fun hp => hp.compact
  · exact fun hc => ⟨by rw [EventPool.put, List.length_set, hlen], hc⟩

theorem eventAlloc_none_full (h : EventsPacked product p) (ha : eventAlloc product p = none) :
    Full EventConfig.ulEPID p.pEvents :=
  (eventAlloc_eq_none h.counted).mp ha

variable {r : Ram}

theorem eventReserve_packed (h : EventsPacked product (r.page .event).body)
    (hmax : product.eventMaxCount < 2 ^ 32) (ulOID : UInt32) :
    EventsPacked product ((eventReserve product ulOID r).page .event).body ↔
      WalkKept r (.eventAlloc ulOID) := by
  unfold eventReserve
  cases ha : eventAlloc product (r.page .event).body with
  | none => exact iff_of_true h fun _ => eventAlloc_none_full h ha
  | some i =>
    simp only [Ram.change, Function.update_self]
    exact h.put_iff hmax ha

theorem eventCreate_packed (h : EventsPacked product (r.page .event).body)
    (hmax : product.eventMaxCount < 2 ^ 32) (pConfig : EventConfig) :
    EventsPacked product ((eventCreate product pConfig r).page .event).body ↔
      WalkKept r (.eventCreate pConfig) := by
  unfold eventCreate
  cases ha : eventAlloc product (r.page .event).body with
  | none => exact iff_of_true h fun _ => eventAlloc_none_full h ha
  | some j =>
    simp only [Ram.modify, Function.update_self]
    exact h.put_iff hmax ha

theorem eventFree_packed (h : EventsPacked product (r.page .event).body) (j : Nat) :
    EventsPacked product ((eventFree product j r).2.page .event).body ↔
      WalkKept r (.eventFree j) := by
  unfold eventFree WalkKept
  split
  next hfree =>
    obtain ⟨hcount, hj⟩ := hfree
    rw [← h.length] at hj
    simp only [Ram.change, Function.update_self, ne_eq, hcount, not_false_eq_true, true_imp_iff, hj]
    rw [← h.compact.free_iff (a := zeroEvent) hcount hj rfl]
    constructor
    · exact fun hp => hp.compact
    · exact fun hc => ⟨by rw [List.length_set, h.length], hc⟩
  next hkeep =>
    rw [← h.length] at hkeep
    exact iff_of_true h fun hcount hj => absurd ⟨hcount, hj⟩ hkeep

end Events

section Run

variable (product : Product)

structure PoolsPacked (r : Ram) : Prop where
  objects : ObjectsPacked product (r.page .object).body
  events : EventsPacked product (r.page .event).body

variable {product} {r r' : Ram} {a : PoolAction}

theorem objCreate_event (pBase : ObjectConfig) (pChild : Nat → ObjectConfig) (r : Ram) :
    (objCreate product pBase pChild r).2.page .event = r.page .event := by
  unfold objCreate
  split <;> rfl

theorem objFree_event (oid : UInt32) (r : Ram) :
    (objFree oid r).2.page .event = r.page .event := by
  unfold objFree
  dsimp only
  split
  · split <;> rfl
  · rfl

/-- A call keeps one of the pools as it is, and the other without holes exactly when it may. -/
theorem packed_step_iff (hobject : product.objMaxCount + 1 < 2 ^ 32)
    (hevent : product.eventMaxCount < 2 ^ 32) (h : PoolsPacked product r)
    (hs : poolStep product r a = some r') : PoolsPacked product r' ↔ WalkKept r a := by
  have hobjects : r'.page .event = r.page .event →
      (PoolsPacked product r' ↔ ObjectsPacked product (r'.page .object).body) := by
    intro hsame
    refine ⟨PoolsPacked.objects, fun hp => ⟨hp, ?_⟩⟩
    rw [hsame]
    exact h.events
  have hevents : r'.page .object = r.page .object →
      (PoolsPacked product r' ↔ EventsPacked product (r'.page .event).body) := by
    intro hsame
    refine ⟨PoolsPacked.events, fun hp => ⟨?_, hp⟩⟩
    rw [hsame]
    exact h.objects
  cases a with
  | objAlloc nID =>
    cases hs
    rw [hobjects (by unfold objReserve; split <;> rfl)]
    exact objReserve_packed h.objects
  | objCreate pBase pChild =>
    cases hs
    rw [hobjects (objCreate_event pBase pChild r)]
    exact iff_of_true (objCreate_packed h.objects hobject pBase pChild) trivial
  | objFree oid =>
    cases hs
    rw [hobjects (objFree_event oid r)]
    exact objFree_packed h.objects oid
  | eventAlloc ulOID =>
    cases hs
    rw [hevents (by unfold eventReserve; split <;> rfl)]
    exact eventReserve_packed h.events hevent ulOID
  | eventCreate pConfig =>
    cases hs
    rw [hevents (by unfold eventCreate; split <;> rfl)]
    exact eventCreate_packed h.events hevent pConfig
  | eventFree i =>
    cases hs
    rw [hevents (by unfold eventFree; split <;> rfl)]
    exact eventFree_packed h.events i

theorem objCreateChildren_length (nID ulGroupID : UInt32) (children : List ObjectConfig)
    (p : ObjectPool) : (children.foldl (objCreateChild product nID ulGroupID) p).pObjects.length =
      p.pObjects.length := by
  induction children generalizing p with
  | nil => rfl
  | cons child children ih =>
    rw [List.foldl_cons, ih]
    unfold objCreateChild
    split
    next => rfl
    next i p₁ ha =>
      obtain ⟨-, -, hsame, -⟩ := objAlloc_cases ha
      rw [List.length_set, hsame]

theorem poolStep_length (hs : poolStep product r a = some r') :
    (r'.page .object).body.pObjects.length = (r.page .object).body.pObjects.length ∧
      (r'.page .event).body.pEvents.length = (r.page .event).body.pEvents.length := by
  cases a with
  | objAlloc nID =>
    cases hs
    unfold objReserve
    split
    next => exact ⟨rfl, rfl⟩
    next i p ha =>
      obtain ⟨-, -, hsame, -⟩ := objAlloc_cases ha
      exact ⟨congrArg List.length hsame, rfl⟩
  | objCreate pBase pChild =>
    cases hs
    refine ⟨?_, by rw [objCreate_event]⟩
    unfold objCreate
    split
    next => rfl
    next i p ha =>
      obtain ⟨-, -, hsame, -⟩ := objAlloc_cases ha
      simp only [Ram.modify, Function.update_self]
      rw [objCreateChildren_length, List.length_set, hsame]
  | objFree oid =>
    cases hs
    refine ⟨?_, by rw [objFree_event]⟩
    obtain ⟨hsame, -⟩ | ⟨i, -, -, -, hfree⟩ := objFree_cases oid r
    · rw [hsame]
    · rw [hfree]
      exact List.length_set
  | eventAlloc ulOID =>
    cases hs
    unfold eventReserve
    split
    · exact ⟨rfl, rfl⟩
    · exact ⟨rfl, List.length_set⟩
  | eventCreate pConfig =>
    cases hs
    unfold eventCreate
    split
    · exact ⟨rfl, rfl⟩
    · exact ⟨rfl, List.length_set⟩
  | eventFree i =>
    cases hs
    unfold eventFree
    split
    · exact ⟨rfl, List.length_set⟩
    · exact ⟨rfl, rfl⟩

theorem PoolsPacked.walked (h : PoolsPacked product r) : Walked r :=
  (walked_iff r).mpr ⟨h.objects.compact, h.events.compact⟩

/-- The walks visit the slots in use throughout a run exactly when none of its calls leaves a hole. -/
theorem walks_right_iff (hobject : product.objMaxCount + 1 < 2 ^ 32)
    (hevent : product.eventMaxCount < 2 ^ 32) {r : Ram} (hr : PoolsPacked product r)
    (acts : List PoolAction) :
    (∀ u, Visits (poolStep product) r acts u → Walked u) ↔
      ∀ u a, Takes (poolStep product) r acts u a → WalkKept u a := by
  obtain ⟨u, hu⟩ := exec_total (poolStep product) poolStep_total acts r
  refine visits_iff_takes hr (fun _ _ _ h hkept hs => (packed_step_iff hobject hevent h hs).mpr hkept)
    (fun _ h => h.walked) (fun v a w h hkept hs hw => ?_) hu
  obtain ⟨hobjects, hevents⟩ := (walked_iff w).mp hw
  obtain ⟨hobjectsLength, heventsLength⟩ := poolStep_length hs
  refine hkept ((packed_step_iff hobject hevent h hs).mp ⟨⟨?_, hobjects⟩, ⟨?_, hevents⟩⟩)
  · rw [hobjectsLength, h.objects.length]
  · rw [heventsLength, h.events.length]

theorem poolsPacked_blank : PoolsPacked roomyProduct blankRam := by
  have hempty : ∀ {α : Type} (key : α → UInt32) (n : Nat) (a : α), key a = 0 →
      Compact key 0 (List.replicate n a) := by
    intro α key n a ha i
    refine iff_of_false (Nat.not_lt_zero i) ?_
    rintro ⟨b, hb, hne⟩
    rw [List.eq_of_mem_replicate (List.mem_of_getElem? hb)] at hne
    exact hne ha
  exact ⟨⟨List.length_replicate, hempty _ _ _ rfl⟩, ⟨List.length_replicate, hempty _ _ _ rfl⟩⟩

instance (r : Ram) : DecidablePred (WalkKept r)
  | .objAlloc _ => inferInstanceAs (Decidable (Full _ _))
  | .objCreate _ _ => .isTrue trivial
  | .objFree _ => inferInstanceAs (Decidable (_ → _))
  | .eventAlloc _ => inferInstanceAs (Decidable (_ → _))
  | .eventCreate _ => inferInstanceAs (Decidable (_ → _))
  | .eventFree _ => inferInstanceAs (Decidable (_ → _ → _))

def twoSensors : List PoolAction :=
  [.objCreate sensorBase fun _ => zeroObject, .objCreate sensorBase fun _ => zeroObject]

/-- Two sensors are created and the first one is freed: the walk goes over its slot, not over the
slot of the other. -/
theorem walk_over_hole : PoolsPacked roomyProduct blankRam ∧
    ∃ u, exec (poolStep roomyProduct) (twoSensors ++ [.objFree 0x01020001]) blankRam = some u ∧
      Drains (objGetNext (u.page .object).body) (objGetFirst (u.page .object).body 0) [0] ∧
      ¬ InUse ObjectConfig.nID (u.page .object).body.pObjects 0 ∧
      InUse ObjectConfig.nID (u.page .object).body.pObjects 1 ∧ ¬ Walked u := by
  obtain ⟨u, hu⟩ := exec_total (poolStep roomyProduct) poolStep_total
    (twoSensors ++ [.objFree 0x01020001]) blankRam
  have hrun : ((exec (poolStep roomyProduct) (twoSensors ++ [.objFree 0x01020001]) blankRam).map
      fun u => ((u.page .object).body.uiObjectCount,
        (u.page .object).body.pObjects[0]?.map ObjectConfig.nID,
        (u.page .object).body.pObjects[1]?.map ObjectConfig.nID)) =
      some (1, some 0, some 0x01020002) := by
    decide
  rw [hu, Option.map_some, Option.some.injEq, Prod.mk.injEq, Prod.mk.injEq] at hrun
  obtain ⟨hcount, hfirst, hsecond⟩ := hrun
  obtain ⟨c, hc, hzero⟩ := Option.map_eq_some_iff.mp hfirst
  obtain ⟨d, hd, hid⟩ := Option.map_eq_some_iff.mp hsecond
  have hhole : ¬ InUse ObjectConfig.nID (u.page .object).body.pObjects 0 := by
    simp [InUse, hc, hzero]
  have hwalk := drains_range (u.page .object).body.uiObjectCount 0
  refine ⟨poolsPacked_blank, u, hu, ?_, hhole, ⟨d, hd, ?_⟩, fun hw => hhole ?_⟩
  · rw [objGetNext, objGetFirst]
    rw [hcount] at hwalk ⊢
    exact hwalk
  · rw [hid]
    decide
  · refine (((walked_iff u).mp hw).1 0).mp ?_
    rw [hcount]
    decide

/-- The second sensor is freed before the first. -/
def lastFirst : List PoolAction :=
  twoSensors ++ [.eventCreate ⟨0x01020002, []⟩, .objFree 0x01020002, .objFree 0x01020001]

theorem walks_right_lastFirst : ∃ u, exec (poolStep roomyProduct) lastFirst blankRam = some u ∧
    Walked u := by
  obtain ⟨u, hu⟩ := exec_total (poolStep roomyProduct) poolStep_total lastFirst blankRam
  refine ⟨u, hu, ?_⟩
  exact (walks_right_iff (by decide) (by decide) poolsPacked_blank lastFirst).mpr
    (takes_of_along (by decide)) u ⟨lastFirst, List.prefix_rfl, hu⟩

end Run

end EdgeNode.Config
