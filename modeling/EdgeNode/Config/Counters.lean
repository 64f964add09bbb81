import EdgeNode.Config.Identity

/-! The counters of the object pool and of the event pool against the slots in use. -/

namespace EdgeNode.Config

open Runs

section Slots

variable {α : Type} (key : α → UInt32)

def used (slots : List α) : Nat := slots.countP fun a => key a != 0

def Full (slots : List α) : Prop := ∀ a ∈ slots, key a ≠ 0

instance (slots : List α) : Decidable (Full key slots) :=
  inferInstanceAs (Decidable (∀ a ∈ slots, key a ≠ 0))

/-- A pool of `max` slots whose counter is right. -/
structure Counted (max : Nat) (count : UInt32) (slots : List α) : Prop where
  length : slots.length = max
  count : count.toNat = used key slots

variable {key} {max i : Nat} {count : UInt32} {slots : List α} {a : α}

theorem used_lt (hi : i < slots.length) (hz : key slots[i] = 0) : used key slots < slots.length := by
  refine Nat.lt_of_le_of_ne List.countP_le_length fun hall => ?_
  have hused := List.countP_eq_length.mp hall slots[i] (List.getElem_mem hi)
  simp [hz] at hused

theorem used_take (hi : i < slots.length) (hz : key slots[i] = 0) (ha : key a ≠ 0) :
    used key (slots.set i a) = used key slots + 1 := by
  rw [used, List.countP_set hi]
  simp [hz, ha, used]

theorem used_keep (hi : i < slots.length) (hz : key slots[i] = 0) (ha : key a = 0) :
    used key (slots.set i a) = used key slots := by
  rw [used, List.countP_set hi]
  simp [hz, ha, used]

theorem used_free (hi : i < slots.length) (hz : key slots[i] ≠ 0) (ha : key a = 0) :
    used key (slots.set i a) = used key slots - 1 := by
  rw [used, List.countP_set hi]
  simp [hz, ha, used]

theorem used_pos (hi : i < slots.length) (hz : key slots[i] ≠ 0) : 0 < used key slots :=
  List.countP_pos_iff.mpr ⟨slots[i], List.getElem_mem hi, by simpa using hz⟩

theorem Counted.le (h : Counted key max count slots) : count.toNat ≤ max := by
  rw [h.count, ← h.length]
  exact List.countP_le_length

theorem Counted.eq_max_iff (h : Counted key max count slots) :
    count.toNat = max ↔ Full key slots := by
  rw [h.count, ← h.length, used, List.countP_eq_length]
  simp [Full]

theorem Counted.take (h : Counted key max count slots) (hmax : max < 2 ^ 32)
    (hi : i < slots.length) (hz : key slots[i] = 0) (ha : key a ≠ 0) :
    Counted key max (count + 1) (slots.set i a) := by
  have hlt := used_lt hi hz
  refine ⟨by rw [List.length_set, h.length], ?_⟩
  have hroom : count.toNat + 1 < 2 ^ 32 := by
    rw [h.count]
    have := h.length
    omega
  rw [used_take hi hz ha, ← h.count, Words.toNat_succ hroom]

theorem Counted.free (h : Counted key max count slots) (hi : i < slots.length)
    (hz : key slots[i] ≠ 0) (ha : key a = 0) :
    Counted key max (count - 1) (slots.set i a) := by
  have hpos : 0 < count.toNat := by
    rw [h.count]
    exact used_pos hi hz
  refine ⟨by rw [List.length_set, h.length], ?_⟩
  rw [used_free hi hz ha, ← h.count, Words.toNat_pred hpos]

theorem sub_one_ne (count : UInt32) : count - 1 ≠ count := by
  intro h
  have hnat := congrArg UInt32.toNat h
  rw [UInt32.toNat_sub, UInt32.toNat_one] at hnat
  have := count.toNat_lt
  omega

theorem Counted.count_ne_zero_iff (h : Counted key max count slots) :
    count ≠ 0 ↔ used key slots ≠ 0 := by
  rw [← h.count, Ne, ← UInt32.toNat_inj]
  rfl

/-- A counter that moves while no slot does is wrong. -/
theorem Counted.moved {slots' : List α} {count' : UInt32} (h : Counted key max count slots)
    (hused : used key slots' = used key slots) (hne : count' ≠ count) :
    count'.toNat ≠ used key slots' := by
  rw [hused, ← h.count]
  exact fun he => hne (UInt32.toNat_inj.mp he)

end Slots

section Steps

variable (product : Product)

/-- `FTE_CFG_OBJ_alloc` alone: the slot keeps its identifier, which is zero. -/
def objReserve (r : Ram) : Ram :=
  match objAlloc product (r.page .object).body with
  | none => r
  | some (_, p) => r.change .object fun _ => p

/-- `FTE_CFG_EVENT_alloc` alone. -/
def eventReserve (ulOID : UInt32) (r : Ram) : Ram :=
  match eventAlloc product (r.page .event).body with
  | none => r
  | some i => r.change .event fun p =>
      { p with
        uiEventCount := p.uiEventCount + 1
        pEvents := p.pEvents.set i { p.pEvents.getD i zeroEvent with ulEPID := ulOID } }

inductive PoolAction where
  | objAlloc (nID : UInt32)
  | objCreate (pBase : ObjectConfig) (pChild : Nat → ObjectConfig)
  | objFree (oid : UInt32)
  | eventAlloc (ulOID : UInt32)
  | eventCreate (pConfig : EventConfig)
  | eventFree (i : Nat)

def poolStep (r : Ram) : PoolAction → Option Ram
  | .objAlloc _ => some (objReserve product r)
  | .objCreate pBase pChild => some (objCreate product pBase pChild r).2
  | .objFree oid => some (objFree oid r).2
  | .eventAlloc ulOID => some (eventReserve product ulOID r)
  | .eventCreate pConfig => some (eventCreate product pConfig r)
  | .eventFree i => some (eventFree product i r).2

/-- What the counters are to be. -/
structure CountersRight (r : Ram) : Prop where
  object : (r.page .object).body.uiObjectCount.toNat =
    used ObjectConfig.nID (r.page .object).body.pObjects
  event : (r.page .event).body.uiEventCount.toNat =
    used EventConfig.ulEPID (r.page .event).body.pEvents
  object_le : (r.page .object).body.uiObjectCount.toNat ≤ product.objMaxCount
  event_le : (r.page .event).body.uiEventCount.toNat ≤ product.eventMaxCount

/-- The calls that move a counter with a slot: an object is not only reserved where a slot is empty,
zero is no identifier to free where some slots are empty and some are not, or to give to an event
where a slot is empty, and an event that is freed is in use or none is. -/
def CountKept (r : Ram) : PoolAction → Prop
  | .objAlloc _ => Full ObjectConfig.nID (r.page .object).body.pObjects
  | .objCreate _ _ => True
  | .objFree oid => oid = 0 → Full ObjectConfig.nID (r.page .object).body.pObjects ∨
      used ObjectConfig.nID (r.page .object).body.pObjects = 0
  | .eventAlloc ulOID => ulOID = 0 → Full EventConfig.ulEPID (r.page .event).body.pEvents
  | .eventCreate pConfig =>
    pConfig.ulEPID = 0 → Full EventConfig.ulEPID (r.page .event).body.pEvents
  | .eventFree i => used EventConfig.ulEPID (r.page .event).body.pEvents ≠ 0 →
      ∀ e ∈ (r.page .event).body.pEvents[i]?, e.ulEPID ≠ 0

end Steps

section Objects

variable {product : Product} {p p₁ : ObjectPool} {i : Nat} {c : ObjectConfig}

def ObjectsCounted (product : Product) (p : ObjectPool) : Prop :=
  Counted ObjectConfig.nID product.objMaxCount p.uiObjectCount p.pObjects

theorem objAlloc_eq_none (h : ObjectsCounted product p) :
    objAlloc product p = none ↔ Full ObjectConfig.nID p.pObjects := by
  unfold objAlloc
  split
  next => simp [Full, List.findIdx?_eq_none_iff]
  next hmax => exact iff_of_true rfl (h.eq_max_iff.mp (Decidable.not_not.mp hmax))

theorem ObjectsCounted.put (h : ObjectsCounted product p) (hmax : product.objMaxCount < 2 ^ 32)
    (ha : objAlloc product p = some (i, p₁)) (hc : c.nID ≠ 0) :
    ObjectsCounted product (p₁.put i c) := by
  obtain ⟨hi, hz, hsame, hcount⟩ := objAlloc_cases ha
  rw [ObjectsCounted, ObjectPool.put, hsame, hcount]
  exact Counted.take h hmax hi hz hc

theorem objCount_le (h : ObjectsCounted product p) (hmax : product.objMaxCount < 2 ^ 32)
    (ha : objAlloc product p = some (i, p₁)) (ulType ulMask : UInt32) :
    (objCount ulType ulMask p₁).toNat ≤ product.objMaxCount := by
  obtain ⟨hi, hz, hsame, hcount⟩ := objAlloc_cases ha
  unfold objCount
  split
  · rw [hcount]
    exact (Counted.take (a := { zeroObject with nID := 1 }) h hmax hi hz (by decide)).le
  · rw [hsame, UInt32.toNat_ofNat', ← h.length]
    exact Nat.le_trans (Nat.mod_le _ _) List.countP_le_length

theorem newID_ne_zero {t g n : UInt32} (h : n.toNat + 1 < 2 ^ 32) : newID t g (n + 1) ≠ 0 := by
  intro hz
  have hindex := congrArg UInt32.toNat (UInt32.or_eq_zero_iff.mp hz).2
  rw [Words.toNat_succ h] at hindex
  exact Nat.succ_ne_zero _ hindex

theorem objCreateChild_counted (h : ObjectsCounted product p)
    (hmax : product.objMaxCount + 1 < 2 ^ 32) (nID ulGroupID : UInt32) (child : ObjectConfig) :
    ObjectsCounted product (objCreateChild product nID ulGroupID p child) := by
  unfold objCreateChild
  split
  next => exact h
  next i p₁ ha =>
    have hle := objCount_le h (by omega) ha (child.nID &&& objClassMask) objClassMask
    exact h.put (by omega) ha (newID_ne_zero (by omega))

theorem objCreateChildren_counted (hmax : product.objMaxCount + 1 < 2 ^ 32) (nID ulGroupID : UInt32)
    (children : List ObjectConfig) (h : ObjectsCounted product p) :
    ObjectsCounted product (children.foldl (objCreateChild product nID ulGroupID) p) := by
  induction children generalizing p with
  | nil => exact h
  | cons child children ih => exact ih (objCreateChild_counted h hmax nID ulGroupID child)

variable {r : Ram}

theorem objCreate_counted (h : ObjectsCounted product (r.page .object).body)
    (hmax : product.objMaxCount + 1 < 2 ^ 32) (pBase : ObjectConfig) (pChild : Nat → ObjectConfig) :
    ObjectsCounted product ((objCreate product pBase pChild r).2.page .object).body := by
  unfold objCreate
  split
  next => exact h
  next i p₁ ha =>
    have hle := objCount_le h (by omega) ha (pBase.nID &&& objClassMask) objClassMask
    simp only [Ram.modify, Function.update_self]
    exact objCreateChildren_counted hmax _ _ _ (h.put (by omega) ha (newID_ne_zero (by omega)))

theorem objFree_cases (oid : UInt32) (r : Ram) :
    ((objFree oid r).2 = r ∧ ((r.page .object).body.uiObjectCount = 0 ∨
      ∀ c ∈ (r.page .object).body.pObjects, c.nID ≠ oid)) ∨
    ∃ (i : Nat) (hi : i < (r.page .object).body.pObjects.length),
      (r.page .object).body.pObjects[i].nID = oid ∧ (r.page .object).body.uiObjectCount ≠ 0 ∧
        (objFree oid r).2 = r.change .object fun p =>
          { p with uiObjectCount := p.uiObjectCount - 1, pObjects := p.pObjects.set i zeroObject } := by
  unfold objFree
  dsimp only
  split
  next hcount =>
    split
    next i hfind =>
      obtain ⟨hi, hoid, -⟩ := List.findIdx?_eq_some_iff_getElem.mp hfind
      exact .inr ⟨i, hi, by simpa using hoid, hcount, rfl⟩
    next hnone => exact .inl ⟨rfl, .inr (by simpa [List.findIdx?_eq_none_iff] using hnone)⟩
  next hzero => exact .inl ⟨rfl, .inl (Decidable.not_not.mp hzero)⟩

end Objects

section Events

variable {product : Product} {p : EventPool} {i : Nat} {e : EventConfig}

def EventsCounted (product : Product) (p : EventPool) : Prop :=
  Counted EventConfig.ulEPID product.eventMaxCount p.uiEventCount p.pEvents

theorem eventAlloc_eq_none (h : EventsCounted product p) :
    eventAlloc product p = none ↔ Full EventConfig.ulEPID p.pEvents := by
  unfold eventAlloc
  split
  next => simp [Full, List.findIdx?_eq_none_iff]
  next hmax => exact iff_of_true rfl (h.eq_max_iff.mp (Decidable.not_not.mp hmax))

theorem eventAlloc_of_not_full (h : EventsCounted product p)
    (hfull : ¬ Full EventConfig.ulEPID p.pEvents) : ∃ i, eventAlloc product p = some i :=
  Option.ne_none_iff_exists'.mp (mt (eventAlloc_eq_none h).mp hfull)

theorem eventAlloc_cases (h : eventAlloc product p = some i) :
    ∃ hi : i < p.pEvents.length, p.pEvents[i].ulEPID = 0 := by
  unfold eventAlloc at h
  split at h
  · obtain ⟨hi, hz, -⟩ := List.findIdx?_eq_some_iff_getElem.mp h
    exact ⟨hi, by simpa using hz⟩
  · cases h

def EventPool.put (p : EventPool) (i : Nat) (e : EventConfig) : EventPool :=
  { p with uiEventCount := p.uiEventCount + 1, pEvents := p.pEvents.set i e }

theorem EventsCounted.put (h : EventsCounted product p) (hmax : product.eventMaxCount < 2 ^ 32)
    (ha : eventAlloc product p = some i)
    (he : e.ulEPID = 0 → Full EventConfig.ulEPID p.pEvents) : EventsCounted product (p.put i e) := by
  obtain ⟨hi, hz⟩ := eventAlloc_cases ha
  refine Counted.take h hmax hi hz fun hzero => ?_
  exact he hzero _ (List.getElem_mem hi) hz

theorem EventsCounted.put_zero (h : EventsCounted product p) (ha : eventAlloc product p = some i)
    (he : e.ulEPID = 0) :
    (p.put i e).uiEventCount.toNat ≠ used EventConfig.ulEPID (p.put i e).pEvents := by
  obtain ⟨hi, hz⟩ := eventAlloc_cases ha
  exact Counted.moved h (used_keep hi hz he) (by simp [EventPool.put])

end Events

section Run

variable (product : Product)

structure PoolsCounted (r : Ram) : Prop where
  objects : ObjectsCounted product (r.page .object).body
  events : EventsCounted product (r.page .event).body

variable {product} {r r' : Ram} {a : PoolAction}

theorem PoolsCounted.right (h : PoolsCounted product r) : CountersRight product r :=
  ⟨h.objects.count, h.events.count, h.objects.le, h.events.le⟩

theorem PoolsCounted.change_objects (h : PoolsCounted product r) {f : ObjectPool → ObjectPool}
    (hf : ObjectsCounted product (f (r.page .object).body)) :
    PoolsCounted product (r.change .object f) :=
  ⟨by simpa only [Ram.change, Function.update_self] using hf, h.events⟩

theorem PoolsCounted.change_events (h : PoolsCounted product r) {f : EventPool → EventPool}
    (hf : EventsCounted product (f (r.page .event).body)) :
    PoolsCounted product (r.change .event f) :=
  ⟨h.objects, by simpa only [Ram.change, Function.update_self] using hf⟩

theorem PoolsCounted.modify_events (h : PoolsCounted product r) {f : EventPool → EventPool}
    (hf : EventsCounted product (f (r.page .event).body)) :
    PoolsCounted product (r.modify .event f) :=
  ⟨h.objects, (h.change_events hf).events⟩

theorem PoolsCounted.objFree (h : PoolsCounted product r) {oid : UInt32}
    (hkept : CountKept r (.objFree oid)) : PoolsCounted product (objFree oid r).2 := by
  obtain ⟨hsame, -⟩ | ⟨i, hi, hoid, hcount, hfree⟩ := objFree_cases oid r
  · rwa [hsame]
  · have hused := h.objects.count_ne_zero_iff.mp hcount
    have hne : (r.page .object).body.pObjects[i].nID ≠ 0 := by
      intro hz
      rcases hkept (hoid.symm.trans hz) with hfull | hnone
      · exact hfull _ (List.getElem_mem hi) hz
      · exact hused hnone
    rw [hfree]
    refine h.change_objects ?_
    exact Counted.free (a := zeroObject) h.objects hi hne rfl

theorem PoolsCounted.eventFree (h : PoolsCounted product r) {i : Nat}
    (hkept : CountKept r (.eventFree i)) : PoolsCounted product (eventFree product i r).2 := by
  unfold Config.eventFree
  split <;> dsimp only
  next hfree =>
    obtain ⟨hcount, hi⟩ := hfree
    rw [← h.events.length] at hi
    have hused := h.events.count_ne_zero_iff.mp hcount
    have hne := hkept hused _ (List.getElem?_eq_getElem hi)
    refine h.change_events ?_
    exact Counted.free (a := zeroEvent) h.events hi hne rfl
  next => exact h

/-- A call that moves its counter with a slot or leaves both. -/
theorem counted_step (hobject : product.objMaxCount + 1 < 2 ^ 32)
    (hevent : product.eventMaxCount < 2 ^ 32) (h : PoolsCounted product r) (hkept : CountKept r a)
    (hs : poolStep product r a = some r') : PoolsCounted product r' := by
  cases a with
  | objAlloc nID =>
    cases hs
    rw [objReserve, (objAlloc_eq_none h.objects).mpr hkept]
    exact h
  | objCreate pBase pChild =>
    cases hs
    refine ⟨objCreate_counted h.objects hobject pBase pChild, ?_⟩
    have hother : (objCreate product pBase pChild r).2.page .event = r.page .event := by
      unfold objCreate
      split <;> rfl
    rw [hother]
    exact h.events
  | objFree oid =>
    cases hs
    exact h.objFree hkept
  | eventAlloc ulOID =>
    cases hs
    unfold eventReserve
    split
    next => exact h
    next i ha =>
      refine h.change_events ?_
      exact h.events.put hevent ha hkept
  | eventCreate pConfig =>
    cases hs
    unfold eventCreate
    split
    next => exact h
    next i ha =>
      refine h.modify_events ?_
      exact h.events.put hevent ha hkept
  | eventFree i =>
    cases hs
    exact h.eventFree hkept

/-- A call that moves a counter and no slot. -/
theorem drift_step (h : PoolsCounted product r) (hkept : ¬ CountKept r a)
    (hs : poolStep product r a = some r') : ¬ CountersRight product r' := by
  intro hright
  have hobject := hright.object
  have hevent := hright.event
  cases a with
  | objAlloc nID =>
    cases hs
    obtain ⟨⟨i, p⟩, ha⟩ := Option.ne_none_iff_exists'.mp (mt (objAlloc_eq_none h.objects).mp hkept)
    obtain ⟨-, -, hsame, hcount⟩ := objAlloc_cases ha
    rw [objReserve, ha] at hobject
    simp only [Ram.change, Function.update_self] at hobject
    exact Counted.moved h.objects (congrArg (used _) hsame) (by simp [hcount]) hobject
  | objCreate pBase pChild => exact hkept trivial
  | objFree oid =>
    cases hs
    simp only [CountKept, Classical.not_imp, not_or] at hkept
    obtain ⟨rfl, hfull, hused⟩ := hkept
    obtain ⟨-, hcount | hnone⟩ | ⟨i, hi, hz, -, hfree⟩ := objFree_cases 0 r
    · exact h.objects.count_ne_zero_iff.mpr hused hcount
    · exact hfull hnone
    · rw [hfree] at hobject
      simp only [Ram.change, Function.update_self] at hobject
      exact Counted.moved h.objects (used_keep hi hz rfl) (sub_one_ne _) hobject
  | eventAlloc ulOID =>
    cases hs
    simp only [CountKept, Classical.not_imp] at hkept
    obtain ⟨i, ha⟩ := eventAlloc_of_not_full h.events hkept.2
    rw [eventReserve, ha] at hevent
    simp only [Ram.change, Function.update_self] at hevent
    exact h.events.put_zero ha hkept.1 hevent
  | eventCreate pConfig =>
    cases hs
    simp only [CountKept, Classical.not_imp] at hkept
    obtain ⟨i, ha⟩ := eventAlloc_of_not_full h.events hkept.2
    rw [eventCreate, ha] at hevent
    simp only [Ram.modify, Function.update_self] at hevent
    exact h.events.put_zero ha hkept.1 hevent
  | eventFree i =>
    cases hs
    simp only [CountKept, Classical.not_imp, not_forall, Decidable.not_not] at hkept
    obtain ⟨hused, e, he, hz⟩ := hkept
    obtain ⟨hi, rfl⟩ := List.getElem?_eq_some_iff.mp he
    have hcount := h.events.count_ne_zero_iff.mpr hused
    rw [eventFree, if_pos ⟨hcount, by rwa [← h.events.length]⟩] at hevent
    simp only [Ram.change, Function.update_self] at hevent
    exact Counted.moved h.events (used_keep hi hz rfl) (sub_one_ne _) hevent

end Run

section Bounds

variable (product : Product)

structure CountersBounded (r : Ram) : Prop where
  object : (r.page .object).body.uiObjectCount.toNat ≤ product.objMaxCount
  event : (r.page .event).body.uiEventCount.toNat ≤ product.eventMaxCount

variable {product} {p p₁ : ObjectPool} {r r' : Ram} {a : PoolAction} {i : Nat}

theorem toNat_succ_le {count : UInt32} {max : Nat} (h : count.toNat ≤ max) (hne : count.toNat ≠ max) :
    (count + 1).toNat ≤ max := by
  rw [UInt32.toNat_add, UInt32.toNat_one]
  exact Nat.le_trans (Nat.mod_le _ _) (Nat.lt_of_le_of_ne h hne)

theorem toNat_pred_le {count : UInt32} {max : Nat} (h : count.toNat ≤ max) (hne : count ≠ 0) :
    (count - 1).toNat ≤ max := by
  have hpos : 0 < count.toNat := Nat.pos_of_ne_zero fun hz => hne (UInt32.toNat_inj.mp hz)
  rw [Words.toNat_pred hpos]
  exact Nat.le_trans (Nat.sub_le _ _) h

theorem objAlloc_le (h : p.uiObjectCount.toNat ≤ product.objMaxCount)
    (ha : objAlloc product p = some (i, p₁)) : p₁.uiObjectCount.toNat ≤ product.objMaxCount := by
  obtain ⟨-, -, -, hcount⟩ := objAlloc_cases ha
  rw [hcount]
  refine toNat_succ_le h fun hmax => ?_
  rw [objAlloc, if_neg (not_not.mpr hmax)] at ha
  exact nomatch ha

theorem objCreateChildren_le (nID ulGroupID : UInt32) (children : List ObjectConfig)
    (h : p.uiObjectCount.toNat ≤ product.objMaxCount) :
    (children.foldl (objCreateChild product nID ulGroupID) p).uiObjectCount.toNat ≤
      product.objMaxCount := by
  induction children generalizing p with
  | nil => exact h
  | cons child children ih =>
    refine ih ?_
    unfold objCreateChild
    split
    next => exact h
    next i p₁ ha =>
      have hle := objAlloc_le h ha
      exact hle

theorem eventAlloc_ne_max {p : EventPool} (h : eventAlloc product p = some i) :
    p.uiEventCount.toNat ≠ product.eventMaxCount := by
  intro hmax
  rw [eventAlloc, if_neg (not_not.mpr hmax)] at h
  exact nomatch h

theorem bounded_step (h : CountersBounded product r) (hs : poolStep product r a = some r') :
    CountersBounded product r' := by
  cases a with
  | objAlloc nID =>
    cases hs
    unfold objReserve
    split
    next => exact h
    next i p ha => exact ⟨by simpa [Ram.change] using objAlloc_le h.object ha, h.event⟩
  | objCreate pBase pChild =>
    cases hs
    unfold objCreate
    split
    next => exact h
    next i p ha =>
      have hle := objAlloc_le h.object ha
      refine ⟨?_, h.event⟩
      simp only [Ram.modify, Function.update_self]
      exact objCreateChildren_le _ _ _ hle
  | objFree oid =>
    cases hs
    obtain ⟨hsame, -⟩ | ⟨i, -, -, hcount, hfree⟩ := objFree_cases oid r
    · rwa [hsame]
    · rw [hfree]
      exact ⟨by simpa [Ram.change] using toNat_pred_le h.object hcount, h.event⟩
  | eventAlloc ulOID =>
    cases hs
    unfold eventReserve
    split
    next => exact h
    next i ha =>
      have hle := toNat_succ_le h.event (eventAlloc_ne_max ha)
      exact ⟨h.object, by simpa only [Ram.change, Function.update_self] using hle⟩
  | eventCreate pConfig =>
    cases hs
    unfold eventCreate
    split
    next => exact h
    next i ha =>
      have hle := toNat_succ_le h.event (eventAlloc_ne_max ha)
      exact ⟨h.object, by simpa only [Ram.modify, Function.update_self] using hle⟩
  | eventFree i =>
    cases hs
    unfold eventFree
    split <;> dsimp only
    next hfree =>
      have hle := toNat_pred_le h.event hfree.1
      exact ⟨h.object, by simpa only [Ram.change, Function.update_self] using hle⟩
    next => exact h

end Bounds

section Runs

variable {product : Product}

theorem poolStep_total (r : Ram) (a : PoolAction) : ∃ r', poolStep product r a = some r' := by
  cases a <;> exact ⟨_, rfl⟩

/-- The counters keep within their pools in every run; they are right throughout a run exactly when
each of its calls moves its counter with a slot. -/
theorem counters_right_iff (hobject : product.objMaxCount + 1 < 2 ^ 32)
    (hevent : product.eventMaxCount < 2 ^ 32) {r : Ram} (hr : PoolsCounted product r)
    (acts : List PoolAction) :
    (∀ u, Visits (poolStep product) r acts u → CountersBounded product u) ∧
    ((∀ u, Visits (poolStep product) r acts u → CountersRight product u) ↔
      ∀ u a, Takes (poolStep product) r acts u a → CountKept u a) := by
  constructor
  · intro u hu
    exact @inv_of_takes _ _ (poolStep product) (CountersBounded product) (fun _ _ => True) r u acts
      ⟨hr.objects.le, hr.events.le⟩ (fun _ _ _ h _ hs => bounded_step h hs) (fun _ _ _ => trivial) hu
  · obtain ⟨u, hu⟩ := exec_total (poolStep product) poolStep_total acts r
    exact visits_iff_takes hr (fun _ _ _ h hkept hs => counted_step hobject hevent h hkept hs)
      (fun _ h => h.right) (fun _ _ _ h hkept hs => drift_step h hkept hs) hu

theorem poolsCounted_blank : PoolsCounted roomyProduct blankRam :=
  ⟨⟨rfl, rfl⟩, ⟨rfl, rfl⟩⟩

instance (r : Ram) : DecidablePred (CountKept r)
  | .objAlloc _ => inferInstanceAs (Decidable (Full _ _))
  | .objCreate _ _ => .isTrue trivial
  | .objFree _ => inferInstanceAs (Decidable (_ → _))
  | .eventAlloc _ => inferInstanceAs (Decidable (_ → _))
  | .eventCreate _ => inferInstanceAs (Decidable (_ → _))
  | .eventFree i =>
    letI : Decidable (∀ e ∈ (r.page .event).body.pEvents[i]?, e.ulEPID ≠ 0) :=
      Option.decidableForallMem _
    inferInstanceAs (Decidable (_ → _))

/-- A temperature sensor without children. -/
def sensorBase : ObjectConfig := { zeroObject with nID := objTypeDS18B20 }

/-- An object is created, and an empty slot is freed in its place. -/
theorem counters_drift : PoolsCounted roomyProduct blankRam ∧
    ∃ u, exec (poolStep roomyProduct) [.objCreate sensorBase fun _ => zeroObject, .objFree 0]
        blankRam = some u ∧
      (u.page .object).body.uiObjectCount = 0 ∧
      used ObjectConfig.nID (u.page .object).body.pObjects = 1 ∧ ¬ CountersRight roomyProduct u := by
  refine ⟨poolsCounted_blank, _, rfl, by decide, by decide, fun hright => ?_⟩
  have hobject := hright.object
  revert hobject
  decide

def keptCalls : List PoolAction :=
  [.objCreate sensorBase fun _ => zeroObject, .eventCreate ⟨0x01020001, []⟩, .objFree 0x01020001,
    .objFree 0, .eventAlloc 0, .eventFree 0]

theorem counters_right_kept : ∃ u, exec (poolStep roomyProduct) keptCalls blankRam = some u ∧
    CountersRight roomyProduct u := by
  obtain ⟨u, hu⟩ := exec_total (poolStep roomyProduct) poolStep_total keptCalls blankRam
  refine ⟨u, hu, ?_⟩
  exact (counters_right_iff (by decide) (by decide) poolsCounted_blank keptCalls).2.mpr
    (takes_of_along (by decide)) u ⟨keptCalls, List.prefix_rfl, hu⟩

end Runs

end EdgeNode.Config
