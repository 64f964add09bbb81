import EdgeNode.Timer.Queue

/-! `FTE_TIMER_insertTimer` and `FTE_TIMER_insertNewHeadTimer` with the pointers of the list: each
timer keeps its expiry, and the new one gets its own. -/

namespace EdgeNode.Timer

/-- `FTE_TIMER_EVENT` without its callback and the value that it is started with. -/
structure TimerEvent where
  ulTimestamp : UInt32
  bIsRunning : Bool
  next : Option Nat
  xID : UInt32

/-- The timers by address, and the list. -/
structure Memory where
  event : Nat → Option TimerEvent
  pTimerListHead : Option Nat

/-- What the kernel gives: its ticks in a second, and the ID of a timer that it starts. -/
structure Kernel where
  ticksPerSec : UInt32
  startOneshotAfterTicks : UInt32 → UInt32

namespace Memory

/-! None is a pointer that leads to no timer. -/

def modify (m : Memory) (p : Nat) (f : TimerEvent → TimerEvent) : Option Memory := do
  let e ← m.event p
  some { m with event := Function.update m.event p (some (f e)) }

def setTimeout (k : Kernel) (m : Memory) (pEvent : Nat) : Option Memory :=
  m.modify pEvent fun e =>
    { e with xID := k.startOneshotAfterTicks (k.ticksPerSec * e.ulTimestamp / 1000000) }

/-- The loop of `FTE_TIMER_insertTimer`, with so many turns at most. -/
def insertLoop (pEvent : Nat) :
    Nat → Option Nat → Option Nat → UInt32 → UInt32 → Memory → Option Memory
  | 0, _, _, _, _, _ => none
  | _ + 1, none, _, _, _, m => some m
  | turns + 1, some pPrev, pCurrent, aggregatedTimestamp, aggregatedTimestampNext, m => do
    let e ← m.event pEvent
    if aggregatedTimestampNext > e.ulTimestamp then
      let m ← m.modify pEvent fun e => { e with ulTimestamp := e.ulTimestamp - aggregatedTimestamp }
      let e ← m.event pEvent
      let m ← match pCurrent with
        | some pCurrent =>
          m.modify pCurrent fun c => { c with ulTimestamp := c.ulTimestamp - e.ulTimestamp }
        | none => some m
      let m ← m.modify pPrev fun p => { p with next := some pEvent }
      m.modify pEvent fun e => { e with next := pCurrent }
    else
      let pPrev ← pCurrent
      let p ← m.event pPrev
      match p.next with
      | none =>
        let m ← m.modify pEvent fun e =>
          { e with ulTimestamp := e.ulTimestamp - aggregatedTimestampNext }
        let m ← m.modify pPrev fun p => { p with next := some pEvent }
        m.modify pEvent fun e => { e with next := none }
      | some pCurrent =>
        let c ← m.event pCurrent
        insertLoop pEvent turns (some pPrev) (some pCurrent) aggregatedTimestampNext
          (aggregatedTimestampNext + c.ulTimestamp) m

def insertTimer (turns : Nat) (m : Memory) (pEvent : Nat) (ulRemainingTime : UInt32) :
    Option Memory := do
  let pPrev ← m.pTimerListHead
  let p ← m.event pPrev
  match p.next with
  | none =>
    let m ← m.modify pEvent fun e => { e with ulTimestamp := e.ulTimestamp - ulRemainingTime }
    let m ← m.modify pPrev fun p => { p with next := some pEvent }
    m.modify pEvent fun e => { e with next := none }
  | some pCurrent =>
    let c ← m.event pCurrent
    insertLoop pEvent turns (some pPrev) (some pCurrent) ulRemainingTime
      (ulRemainingTime + c.ulTimestamp) m

def insertNewHeadTimer (k : Kernel) (m : Memory) (pEvent : Nat) (ulRemainingTime : UInt32) :
    Option Memory := do
  let pCurrent := m.pTimerListHead
  let m ← match pCurrent with
    | some pCurrent => do
      let e ← m.event pEvent
      m.modify pCurrent fun c =>
        { c with ulTimestamp := ulRemainingTime - e.ulTimestamp, bIsRunning := false }
    | none => some m
  let m ← m.modify pEvent fun e => { e with next := pCurrent, bIsRunning := true }
  setTimeout k { m with pTimerListHead := some pEvent } pEvent

end Memory

/-- The same on the list: the old head stands behind the new one. -/
def insertNewHeadTimer (timer : Nat) (ulTimestamp ulRemainingTime : UInt32) :
    List Entry → List Entry
  | [] => [⟨timer, ulTimestamp, true⟩]
  | h :: l => ⟨timer, ulTimestamp, true⟩ ::
      { h with ulTimestamp := ulRemainingTime - ulTimestamp, bIsRunning := false } :: l

/-- The list in memory from `p` on, with the timestamps. -/
def Lists (event : Nat → Option TimerEvent) : Option Nat → List Entry → Prop
  | p, [] => p = none
  | p, e :: l => p = some e.timer ∧ ∃ v, event e.timer = some v ∧ v.ulTimestamp = e.ulTimestamp ∧
      Lists event v.next l

section Expiries

/-- When the timers behind `b` are reached, as the loop adds it up. -/
def aggregated (b : UInt32) : List Entry → List (Nat × UInt32)
  | [] => []
  | e :: l => (e.timer, b + e.ulTimestamp) :: aggregated (b + e.ulTimestamp) l

/-- The absolute expiry of each timer, where the head has `ulRemainingTime` left. -/
def expiries (ulRemainingTime : UInt32) : List Entry → List (Nat × UInt32)
  | [] => []
  | h :: l => (h.timer, ulRemainingTime) :: aggregated ulRemainingTime l

def Ordered (ulRemainingTime : UInt32) (l : List Entry) : Prop :=
  (expiries ulRemainingTime l).Pairwise fun x y => x.2 ≤ y.2

/-- No sum on the way falls below the one before it. -/
def Rises (b : UInt32) : List Entry → Prop
  | [] => True
  | e :: l => b ≤ b + e.ulTimestamp ∧ Rises (b + e.ulTimestamp) l

variable {timer : Nat} {t b : UInt32} {h : Entry} {l : List Entry}

theorem Rises.le (hr : Rises b l) : ∀ x ∈ aggregated b l, b ≤ x.2 := by
  induction l generalizing b with
  | nil => simp [aggregated]
  | cons e l ih =>
    rw [aggregated, List.forall_mem_cons]
    exact ⟨hr.1, fun x hx => UInt32.le_trans hr.1 (ih hr.2 x hx)⟩

theorem rises_iff : Rises b l ↔
    (∀ x ∈ aggregated b l, b ≤ x.2) ∧ (aggregated b l).Pairwise fun x y => x.2 ≤ y.2 := by
  induction l generalizing b with
  | nil => simp [Rises, aggregated]
  | cons e l ih =>
    rw [aggregated, List.forall_mem_cons, List.pairwise_cons]
    constructor
    · intro hr
      exact ⟨⟨hr.1, fun x hx => UInt32.le_trans hr.1 (hr.2.le x hx)⟩, ih.mp hr.2⟩
    · rintro ⟨⟨hle, -⟩, hrest⟩
      exact ⟨hle, ih.mpr hrest⟩

theorem ordered_cons_iff : Ordered b (h :: l) ↔ Rises b l := by
  rw [Ordered, expiries, List.pairwise_cons, rises_iff]

theorem le_add_iff (x y : UInt32) : x ≤ x + y ↔ x.toNat + y.toNat < 2 ^ 32 := by
  have hx := x.toNat_lt
  have hy := y.toNat_lt
  rw [UInt32.le_iff_toNat_le, UInt32.toNat_add]
  omega

theorem rises_iff_fits : Rises b l ↔
    ∀ x ∈ DeltaList.times b.toNat (deltas l), x.2 < 2 ^ 32 := by
  induction l generalizing b with
  | nil => simp [Rises]
  | cons e l ih =>
    rw [Rises, deltas_cons, DeltaList.times_cons, List.forall_mem_cons, le_add_iff]
    refine and_congr_right fun hfit => ?_
    rw [ih, toNat_add_of_lt hfit]

/-- The list is in order exactly when no sum of its timestamps overflows. -/
theorem ordered_iff_fits : Ordered b (h :: l) ↔
    ∀ x ∈ DeltaList.times b.toNat (deltas l), x.2 < 2 ^ 32 :=
  ordered_cons_iff.trans rises_iff_fits

/-- What the new timer takes off the one behind it is what it adds before it. -/
theorem aggregated_insertTimer :
    (aggregated b (insertTimer timer t b l)).Perm ((timer, t) :: aggregated b l) := by
  induction l generalizing b with
  | nil =>
    have ht : b + (t - b) = t := by grind
    rw [insertTimer, aggregated, aggregated, aggregated, ht]
  | cons c l ih =>
    rw [insertTimer]
    split
    · have ht : b + (t - b) = t := by grind
      have hc : t + (c.ulTimestamp - (t - b)) = b + c.ulTimestamp := by grind
      rw [aggregated, ht, aggregated, hc, aggregated]
    · rw [aggregated, aggregated]
      exact (ih.cons _).trans (List.Perm.swap _ _ _)

theorem Rises.insertTimer (hr : Rises b l) (hle : b ≤ t) : Rises b (insertTimer timer t b l) := by
  induction l generalizing b with
  | nil =>
    have ht : b + (t - b) = t := by grind
    rw [Timer.insertTimer, Rises, ht]
    exact ⟨hle, trivial⟩
  | cons c l ih =>
    rw [Timer.insertTimer]
    split
    next hlt =>
      have ht : b + (t - b) = t := by grind
      have hc : t + (c.ulTimestamp - (t - b)) = b + c.ulTimestamp := by grind
      rw [Rises, ht, Rises, hc]
      exact ⟨hle, UInt32.le_of_lt hlt, hr.2⟩
    next hge =>
      exact ⟨hr.1, ih hr.2 (UInt32.not_lt.mp hge)⟩

theorem expiries_insertTimer : (expiries b (h :: insertTimer timer t b l)).Perm
    ((timer, t) :: expiries b (h :: l)) :=
  (aggregated_insertTimer.cons _).trans (List.Perm.swap _ _ _)

theorem expiries_insertNewHeadTimer :
    expiries t (insertNewHeadTimer timer t b l) = (timer, t) :: expiries b l := by
  cases l with
  | nil => rfl
  | cons h l =>
    have ht : t + (b - t) = b := by grind
    rw [insertNewHeadTimer, expiries, aggregated, ht, expiries]

theorem ordered_insertNewHeadTimer (ho : Ordered b l) (hlt : l ≠ [] → t < b) :
    Ordered t (insertNewHeadTimer timer t b l) := by
  cases l with
  | nil => simp [Ordered, insertNewHeadTimer, expiries, aggregated]
  | cons h l =>
    have ht : t + (b - t) = b := by grind
    rw [insertNewHeadTimer, ordered_cons_iff, Rises, ht]
    exact ⟨UInt32.le_of_lt (hlt (List.cons_ne_nil h l)), ordered_cons_iff.mp ho⟩

end Expiries

section Pointers

variable {event event' : Nat → Option TimerEvent} {p : Option Nat} {l l' : List Entry}

theorem Lists.congr (hl : Lists event p l) (h : ∀ e ∈ l, event' e.timer = event e.timer) :
    Lists event' p l := by
  induction l generalizing p with
  | nil => exact hl
  | cons e l ih =>
    obtain ⟨hp, v, hv, ht, hl⟩ := hl
    rw [List.forall_mem_cons] at h
    exact ⟨hp, v, h.1.trans hv, ht, ih hl h.2⟩

theorem Lists.length_eq (hl : Lists event p l) (hl' : Lists event p l') : l.length = l'.length := by
  induction l generalizing p l' with
  | nil =>
    obtain rfl : p = none := hl
    cases l' with
    | nil => rfl
    | cons e' l' => exact absurd hl'.1 (Option.some_ne_none _).symm
  | cons e l ih =>
    obtain ⟨rfl, v, hv, -, hl⟩ := hl
    cases l' with
    | nil => exact absurd hl' (Option.some_ne_none _)
    | cons e' l' =>
      obtain ⟨he, v', hv', -, hl'⟩ := hl'
      have hsame : v = v' := by
        rw [Option.some_inj.mp he, hv'] at hv
        exact (Option.some_inj.mp hv).symm
      subst hsame
      rw [List.length_cons, List.length_cons, ih hl hl']

theorem Lists.append {pre : List Entry} (hl : Lists event p (pre ++ l)) :
    ∃ q, Lists event q l := by
  induction pre generalizing p with
  | nil => exact ⟨p, hl⟩
  | cons e pre ih =>
    obtain ⟨-, v, -, -, hl⟩ := hl
    exact ih hl

/-- A list that ends leads to no timer twice. -/
theorem Lists.nodup (hl : Lists event p l) : (l.map Entry.timer).Nodup := by
  induction l generalizing p with
  | nil => exact List.nodup_nil
  | cons e l ih =>
    have hl' := hl
    obtain ⟨rfl, v, hv, ht, hrest⟩ := hl
    rw [List.map_cons, List.nodup_cons]
    refine ⟨fun hmem => ?_, ih hrest⟩
    obtain ⟨c, hc, hce⟩ := List.mem_map.mp hmem
    obtain ⟨pre, post, rfl⟩ := List.append_of_mem hc
    obtain ⟨q, hq⟩ := hrest.append
    have hback : Lists event (some e.timer) (c :: post) := by
      rw [← hce, ← hq.1]
      exact hq
    have hlen := hback.length_eq hl'
    simp at hlen
    omega

namespace Memory

variable {m : Memory} {pEvent pPrev : Nat} {v w : TimerEvent}

theorem modify_eq (hv : m.event pEvent = some v) (f : TimerEvent → TimerEvent) : m.modify pEvent f =
    some { m with event := Function.update m.event pEvent (some (f v)) } := by
  rw [modify, hv]
  rfl

/-- The new timer is hung in behind another one. -/
theorem link_lists {a e : Entry} {q : Option Nat} (hw : m.event a.timer = some w)
    (ha : w.ulTimestamp = a.ulTimestamp) (hv : m.event e.timer = some v)
    (he : v.ulTimestamp = e.ulTimestamp) (hq : Lists m.event q l) (hne : a.timer ≠ e.timer)
    (hal : a.timer ∉ l.map Entry.timer) (hel : e.timer ∉ l.map Entry.timer) :
    ∃ m', (do
        let m ← m.modify a.timer fun p => { p with next := some e.timer }
        m.modify e.timer fun e => { e with next := q }) = some m' ∧
      Lists m'.event (some a.timer) (a :: e :: l) ∧ m'.pTimerListHead = m.pTimerListHead ∧
      ∀ r, r ≠ a.timer → r ≠ e.timer → m'.event r = m.event r := by
  have hv' : Function.update m.event a.timer (some { w with next := some e.timer }) e.timer =
      some v := by
    rwa [Function.update_of_ne hne.symm]
  rw [modify_eq hw, Option.bind_eq_bind, Option.bind_some, modify_eq hv']
  refine ⟨_, rfl, ⟨rfl, { w with next := some e.timer }, ?_, ha, rfl, { v with next := q }, ?_, he, ?_⟩,
    rfl, ?_⟩
  · dsimp only
    rw [Function.update_of_ne hne, Function.update_self]
  · exact Function.update_self ..
  · refine hq.congr fun x hx => ?_
    have hx' := List.mem_map_of_mem (f := Entry.timer) hx
    dsimp only
    rw [Function.update_of_ne (ne_of_mem_of_not_mem hx' hel),
      Function.update_of_ne (ne_of_mem_of_not_mem hx' hal)]
  · intro r hra hre
    dsimp only
    rw [Function.update_of_ne hre, Function.update_of_ne hra]

/-- What a call leaves: the list from `p` on, and the other timers as they were. -/
structure Leaves (m m' : Memory) (pEvent : Nat) (p : Option Nat) (l l' : List Entry) : Prop where
  lists : Lists m'.event p l'
  head : m'.pTimerListHead = m.pTimerListHead
  others : ∀ r ≠ pEvent, r ∉ l.map Entry.timer → m'.event r = m.event r

/-- The new timer behind the last one. -/
theorem last_leaves {a : Entry} (hv : m.event pEvent = some v) (b : UInt32)
    (hl : Lists m.event (some a.timer) [a]) (hne : a.timer ≠ pEvent) :
    ∃ m', (do
        let m ← m.modify pEvent fun e => { e with ulTimestamp := e.ulTimestamp - b }
        let m ← m.modify a.timer fun p => { p with next := some pEvent }
        m.modify pEvent fun e => { e with next := none }) = some m' ∧
      Leaves m m' pEvent (some a.timer) [a] [a, ⟨pEvent, v.ulTimestamp - b, false⟩] := by
  obtain ⟨-, w, hw, ha, -⟩ := hl
  let m₁ : Memory := { m with
    event := Function.update m.event pEvent (some { v with ulTimestamp := v.ulTimestamp - b }) }
  have hm₁ : m.modify pEvent (fun e => { e with ulTimestamp := e.ulTimestamp - b }) = some m₁ :=
    modify_eq hv _
  have hw₁ : m₁.event a.timer = some w := (Function.update_of_ne hne _ _).trans hw
  have hv₁ : m₁.event pEvent = some { v with ulTimestamp := v.ulTimestamp - b } :=
    Function.update_self ..
  obtain ⟨m', hm', hl', hhead, hothers⟩ := link_lists (m := m₁) (a := a)
    (e := ⟨pEvent, v.ulTimestamp - b, false⟩) (q := none) (l := []) hw₁ ha hv₁ rfl rfl hne
    List.not_mem_nil List.not_mem_nil
  refine ⟨m', by rw [hm₁]; exact hm', hl', hhead, fun r hr hra => ?_⟩
  rw [hothers r (by simpa using hra) hr]
  exact Function.update_of_ne hr _ _

/-- The new timer between two others. -/
theorem between_leaves {a c : Entry} (hv : m.event pEvent = some v) (b : UInt32)
    (hl : Lists m.event (some a.timer) (a :: c :: l))
    (hnew : pEvent ∉ (a :: c :: l).map Entry.timer) :
    ∃ m', (do
        let m ← m.modify pEvent fun e => { e with ulTimestamp := e.ulTimestamp - b }
        let e ← m.event pEvent
        let m ← m.modify c.timer fun c => { c with ulTimestamp := c.ulTimestamp - e.ulTimestamp }
        let m ← m.modify a.timer fun p => { p with next := some pEvent }
        m.modify pEvent fun e => { e with next := some c.timer }) = some m' ∧
      Leaves m m' pEvent (some a.timer) (a :: c :: l) (a :: ⟨pEvent, v.ulTimestamp - b, false⟩ ::
        { c with ulTimestamp := c.ulTimestamp - (v.ulTimestamp - b) } :: l) := by
  have hnd := hl.nodup
  simp only [List.map_cons, List.nodup_cons, List.mem_cons, not_or] at hnd hnew
  obtain ⟨⟨hac, hal⟩, hcl, -⟩ := hnd
  obtain ⟨hea, hec, hel⟩ := hnew
  obtain ⟨-, w, hw, ha, -, u, hu, hc, hrest⟩ := hl
  let m₁ : Memory := { m with
    event := Function.update m.event pEvent (some { v with ulTimestamp := v.ulTimestamp - b }) }
  let m₂ : Memory := { m with
    event := Function.update m₁.event c.timer
      (some { u with ulTimestamp := u.ulTimestamp - (v.ulTimestamp - b) }) }
  have hm₁ : m.modify pEvent (fun e => { e with ulTimestamp := e.ulTimestamp - b }) = some m₁ :=
    modify_eq hv _
  have hv₁ : m₁.event pEvent = some { v with ulTimestamp := v.ulTimestamp - b } :=
    Function.update_self ..
  have hu₁ : m₁.event c.timer = some u := (Function.update_of_ne (Ne.symm hec) _ _).trans hu
  have hm₂ : m₁.modify c.timer (fun c =>
      { c with ulTimestamp := c.ulTimestamp - (v.ulTimestamp - b) }) = some m₂ := modify_eq hu₁ _
  have hother : ∀ r, r ≠ pEvent → r ≠ c.timer → m₂.event r = m.event r := by
    intro r hre hrc
    exact (Function.update_of_ne hrc _ _).trans (Function.update_of_ne hre _ _)
  have hq : Lists m₂.event (some c.timer)
      ({ c with ulTimestamp := c.ulTimestamp - (v.ulTimestamp - b) } :: l) := by
    refine ⟨rfl, _, Function.update_self .., by rw [hc], hrest.congr fun x hx => ?_⟩
    have hx' := List.mem_map_of_mem (f := Entry.timer) hx
    exact hother _ (ne_of_mem_of_not_mem hx' hel) (ne_of_mem_of_not_mem hx' hcl)
  obtain ⟨m', hm', hl', hhead, hothers⟩ := link_lists (m := m₂) (a := a)
    (e := ⟨pEvent, v.ulTimestamp - b, false⟩) ((hother _ (Ne.symm hea) hac).trans hw) ha
    ((Function.update_of_ne hec _ _).trans hv₁) rfl hq (Ne.symm hea) (by simp [hac, hal])
    (by simp [hec, hel])
  refine ⟨m', ?_, hl', hhead, fun r hr hra => ?_⟩
  · simp only [hm₁, hv₁, hm₂, Option.bind_eq_bind, Option.bind_some]
    exact hm'
  · simp only [List.map_cons, List.mem_cons, not_or] at hra
    rw [hothers r hra.1 hr, hother r hr hra.2.1]

/-- The loop on its way behind `a`, which is reached after `b`. -/
theorem insertLoop_leaves (hv : m.event pEvent = some v) {turns : Nat} {b : UInt32} {a c : Entry}
    (hl : Lists m.event (some a.timer) (a :: c :: l)) (hnew : pEvent ∉ (a :: c :: l).map Entry.timer)
    (hturns : l.length < turns) :
    ∃ m', insertLoop pEvent turns (some a.timer) (some c.timer) b (b + c.ulTimestamp) m = some m' ∧
      Leaves m m' pEvent (some a.timer) (a :: c :: l)
        (a :: Timer.insertTimer pEvent v.ulTimestamp b (c :: l)) := by
  induction turns generalizing l b a c with
  | zero => exact absurd hturns (Nat.not_lt_zero _)
  | succ turns ih =>
    obtain ⟨-, w, hw, ha, hc, u, hu, hcu, hrest⟩ := hl
    have hl : Lists m.event (some a.timer) (a :: c :: l) := ⟨rfl, w, hw, ha, hc, u, hu, hcu, hrest⟩
    have hback : Lists m.event (some c.timer) (c :: l) := ⟨rfl, u, hu, hcu, hrest⟩
    rw [insertLoop, hv, Timer.insertTimer]
    by_cases hlt : b + c.ulTimestamp > v.ulTimestamp
    · simp only [Option.bind_eq_bind, Option.bind_some, if_pos hlt]
      exact between_leaves hv b hl hnew
    · simp only [Option.bind_eq_bind, Option.bind_some, if_neg hlt, hu]
      rw [List.map_cons, List.mem_cons, not_or] at hnew
      have hac : a.timer ∉ (c :: l).map Entry.timer := (List.nodup_cons.mp hl.nodup).1
      -- behind `a` nothing changes but what the rest of the loop changes
      have hkeep : ∀ {m' l'}, Leaves m m' pEvent (some c.timer) (c :: l) (c :: l') →
          Leaves m m' pEvent (some a.timer) (a :: c :: l) (a :: c :: l') := by
        intro m' l' h
        refine ⟨⟨rfl, w, (h.others _ (Ne.symm hnew.1) hac).trans hw, ha, ?_⟩, h.head, ?_⟩
        · rw [hc]
          exact h.lists
        · intro r hr hra
          rw [List.map_cons, List.mem_cons, not_or] at hra
          exact h.others r hr hra.2
      cases l with
      | nil =>
        have hnext : u.next = none := hrest
        rw [hnext]
        obtain ⟨m', hm', hl'⟩ := last_leaves hv (b + c.ulTimestamp) hback
          (fun h => hnew.2 (by simp [h]))
        exact ⟨m', hm', hkeep hl'⟩
      | cons n l =>
        have hnext : u.next = some n.timer := hrest.1
        obtain ⟨-, x, hx, hxn, -⟩ := hrest
        rw [hnext]
        simp only [hx, hxn, Option.bind_some]
        obtain ⟨m', hm', hl'⟩ := ih (b := b + c.ulTimestamp) hback hnew.2
          (by rw [List.length_cons] at hturns; omega)
        exact ⟨m', hm', hkeep hl'⟩

theorem insertTimer_leaves (hv : m.event pEvent = some v) {turns : Nat} {h : Entry}
    (ulRemainingTime : UInt32) (hl : Lists m.event m.pTimerListHead (h :: l))
    (hnew : pEvent ∉ (h :: l).map Entry.timer) (hturns : l.length ≤ turns) :
    ∃ m', m.insertTimer turns pEvent ulRemainingTime = some m' ∧
      Leaves m m' pEvent m.pTimerListHead (h :: l)
        (h :: Timer.insertTimer pEvent v.ulTimestamp ulRemainingTime l) := by
  have hhead : m.pTimerListHead = some h.timer := hl.1
  rw [hhead] at hl ⊢
  obtain ⟨-, w, hw, ha, hrest⟩ := hl
  have hl : Lists m.event (some h.timer) (h :: l) := ⟨rfl, w, hw, ha, hrest⟩
  rw [Memory.insertTimer, hhead]
  simp only [Option.bind_eq_bind, Option.bind_some, hw]
  cases l with
  | nil =>
    have hnext : w.next = none := hrest
    rw [hnext]
    exact last_leaves hv ulRemainingTime hl (fun he => hnew (by simp [he]))
  | cons c l =>
    have hnext : w.next = some c.timer := hrest.1
    obtain ⟨-, u, hu, hcu, -⟩ := hrest
    rw [hnext]
    simp only [hu, hcu, Option.bind_some]
    exact insertLoop_leaves hv hl hnew hturns

/-- The new timer in front of the others, once the old head has its time. -/
theorem front_lists (hv : m.event pEvent = some v) (k : Kernel) {q : Option Nat}
    (hq : Lists m.event q l) (hnew : pEvent ∉ l.map Entry.timer) :
    ∃ m', (do
        let m ← m.modify pEvent fun e => { e with next := q, bIsRunning := true }
        setTimeout k { m with pTimerListHead := some pEvent } pEvent) = some m' ∧
      Lists m'.event m'.pTimerListHead (⟨pEvent, v.ulTimestamp, true⟩ :: l) := by
  have hv' : Function.update m.event pEvent (some { v with next := q, bIsRunning := true }) pEvent =
      some { v with next := q, bIsRunning := true } := Function.update_self ..
  rw [modify_eq hv, Option.bind_eq_bind, Option.bind_some, setTimeout, modify_eq hv']
  refine ⟨_, rfl, rfl, _, Function.update_self .., rfl, hq.congr fun x hx => ?_⟩
  have hne := ne_of_mem_of_not_mem (List.mem_map_of_mem (f := Entry.timer) hx) hnew
  dsimp only
  rw [Function.update_of_ne hne, Function.update_of_ne hne]

theorem insertNewHeadTimer_lists (hv : m.event pEvent = some v) (k : Kernel)
    (ulRemainingTime : UInt32) (hl : Lists m.event m.pTimerListHead l)
    (hnew : pEvent ∉ l.map Entry.timer) :
    ∃ m', m.insertNewHeadTimer k pEvent ulRemainingTime = some m' ∧
      Lists m'.event m'.pTimerListHead
        (Timer.insertNewHeadTimer pEvent v.ulTimestamp ulRemainingTime l) := by
  rw [Memory.insertNewHeadTimer]
  cases l with
  | nil =>
    have hhead : m.pTimerListHead = none := hl
    rw [hhead] at hl ⊢
    exact front_lists hv k hl hnew
  | cons h l =>
    have hhead : m.pTimerListHead = some h.timer := hl.1
    have hhl := (List.nodup_cons.mp hl.nodup).1
    obtain ⟨-, w, hw, -, hrest⟩ := hl
    have hnew' := hnew
    rw [List.map_cons, List.mem_cons, not_or] at hnew'
    let w' : TimerEvent :=
      { w with ulTimestamp := ulRemainingTime - v.ulTimestamp, bIsRunning := false }
    let m₁ : Memory := { m with event := Function.update m.event h.timer (some w') }
    have hm₁ : m.modify h.timer (fun c =>
        { c with ulTimestamp := ulRemainingTime - v.ulTimestamp, bIsRunning := false }) = some m₁ :=
      modify_eq hw _
    have hq : Lists m₁.event (some h.timer)
        ({ h with ulTimestamp := ulRemainingTime - v.ulTimestamp, bIsRunning := false } :: l) := by
      refine ⟨rfl, w', Function.update_self .., rfl, hrest.congr fun x hx => ?_⟩
      exact Function.update_of_ne
        (ne_of_mem_of_not_mem (List.mem_map_of_mem (f := Entry.timer) hx) hhl) _ _
    obtain ⟨m', hm', hl'⟩ := front_lists (m := m₁)
      ((Function.update_of_ne hnew'.1 _ _).trans hv) k hq hnew
    refine ⟨m', ?_, hl'⟩
    simp only [hhead, hv, hm₁, Option.bind_eq_bind, Option.bind_some]
    exact hm'

end Memory

end Pointers

/-- Each insertion keeps the expiry of every other timer, gives the new one its own and keeps the
list in order: behind the head for a timer that is not due before it, at the head for others. -/
theorem insertions_ordered {m : Memory} {l : List Entry} {pEvent : Nat} {v : TimerEvent}
    {ulRemainingTime : UInt32} (k : Kernel) (hl : Lists m.event m.pTimerListHead l)
    (hv : m.event pEvent = some v) (hnew : pEvent ∉ l.map Entry.timer)
    (ho : Ordered ulRemainingTime l) :
    (∀ turns, l ≠ [] → ulRemainingTime ≤ v.ulTimestamp → l.length ≤ turns →
      ∃ m' l', m.insertTimer turns pEvent ulRemainingTime = some m' ∧
        Lists m'.event m'.pTimerListHead l' ∧
        (expiries ulRemainingTime l').Perm
          ((pEvent, v.ulTimestamp) :: expiries ulRemainingTime l) ∧ Ordered ulRemainingTime l') ∧
    ((l ≠ [] → v.ulTimestamp < ulRemainingTime) →
      ∃ m' l', m.insertNewHeadTimer k pEvent ulRemainingTime = some m' ∧
        Lists m'.event m'.pTimerListHead l' ∧
        (expiries v.ulTimestamp l').Perm
          ((pEvent, v.ulTimestamp) :: expiries ulRemainingTime l) ∧ Ordered v.ulTimestamp l') := by
  refine ⟨fun turns hne hle hturns => ?_, fun hlt => ?_⟩
  · obtain ⟨h, l, rfl⟩ := List.exists_cons_of_ne_nil hne
    obtain ⟨m', hm', hleaves⟩ := Memory.insertTimer_leaves hv ulRemainingTime hl hnew
      (Nat.le_of_succ_le hturns)
    refine ⟨m', _, hm', ?_, expiries_insertTimer,
      ordered_cons_iff.mpr ((ordered_cons_iff.mp ho).insertTimer hle)⟩
    rw [hleaves.head]
    exact hleaves.lists
  · obtain ⟨m', hm', hl'⟩ := Memory.insertNewHeadTimer_lists hv k ulRemainingTime hl hnew
    refine ⟨m', _, hm', hl', ?_, ordered_insertNewHeadTimer ho hlt⟩
    rw [expiries_insertNewHeadTimer]

/-- Two timers that wait for 5000 and 9000, and one that is to wait for `ulTimestamp`. -/
def waiting (ulTimestamp : UInt32) : Memory where
  event
    | 1 => some ⟨5000, true, some 2, 7⟩
    | 2 => some ⟨4000, false, none, 0⟩
    | 3 => some ⟨ulTimestamp, false, none, 0⟩
    | _ => none
  pTimerListHead := some 1

theorem waiting_lists (ulTimestamp : UInt32) : Lists (waiting ulTimestamp).event
    (waiting ulTimestamp).pTimerListHead [⟨1, 5000, true⟩, ⟨2, 4000, false⟩] :=
  ⟨rfl, _, rfl, rfl, rfl, _, rfl, rfl, rfl⟩

def firstTimer : Kernel := ⟨200, fun _ => 1⟩

/-- The third one between the others, and in front of them. -/
theorem insertions_ordered_waiting :
    (∃ m' l', (waiting 7000).insertTimer 2 3 5000 = some m' ∧
      Lists m'.event m'.pTimerListHead l' ∧
      (expiries 5000 l').Perm [(3, 7000), (1, 5000), (2, 9000)] ∧ Ordered 5000 l') ∧
    ∃ m' l', (waiting 3000).insertNewHeadTimer firstTimer 3 5000 = some m' ∧
      Lists m'.event m'.pTimerListHead l' ∧
      (expiries 3000 l').Perm [(3, 3000), (1, 5000), (2, 9000)] ∧ Ordered 3000 l' := by
  have ho : Ordered 5000 [⟨1, 5000, true⟩, ⟨2, 4000, false⟩] := by
    rw [ordered_cons_iff]
    exact ⟨by decide, trivial⟩
  constructor
  · exact (@insertions_ordered (waiting 7000) _ 3 _ 5000 firstTimer (waiting_lists 7000) rfl
      (by decide) ho).1 2 (by simp) (by decide) (by decide)
  · exact (@insertions_ordered (waiting 3000) _ 3 _ 5000 firstTimer (waiting_lists 3000) rfl
      (by decide) ho).2 fun _ => by decide

/-- `FTE_TIMER_start` leaves the list to one of the two. -/
theorem start_list {s : Timers} {timer : Nat} (h : timerExists timer s.list = false) :
    (start timer s).list = match s.list with
      | [] => insertNewHeadTimer timer (s.reload timer) (s.reload timer) []
      | h :: l =>
        if s.reload timer < remainingTime (getValue s) h then
          insertNewHeadTimer timer (s.reload timer) (remainingTime (getValue s) h) (h :: l)
        else h :: insertTimer timer (s.reload timer) (remainingTime (getValue s) h) l := by
  rw [start, if_neg (by simp [h])]
  cases s.list with
  | nil => rfl
  | cons e l =>
    dsimp only
    split <;> rfl

end EdgeNode.Timer
