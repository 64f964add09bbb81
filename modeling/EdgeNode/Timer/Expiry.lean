import EdgeNode.Timer.Queue

/-! When the handler calls the timers back: on time as long as what it takes for the elapsed time
is the time since the head was set. -/

namespace EdgeNode.Timer

/-- The handler calls back every timer that is due, once, and no other. -/
def Exact (s : Timers) : Prop :=
  (called s).Nodup ∧ ∀ e, e ∈ called s ↔ ∃ d, s.due e = some d ∧ d ≤ now s

/-- The time since boot, cut to a word and to what the head was set to, is the time since then. -/
def Timed (s : Timers) : Prop :=
  match s.list with
  | [] => True
  | h :: _ => s.base + min (getValue s).toNat h.ulTimestamp.toNat = now s

instance : DecidablePred Timed := fun s => by
  unfold Timed
  cases s.list <;> infer_instance

/-- The head is due, by the time since boot too, and nothing is due later than it. -/
def Flushed (s : Timers) : Prop :=
  match s.list with
  | [] => True
  | h :: l => h.ulTimestamp ≤ getValue s ∧ s.base + h.ulTimestamp.toNat ≤ now s ∧
      ∀ c ∈ l, c.ulTimestamp = 0

instance : DecidablePred Flushed := fun s => by
  unfold Flushed
  cases s.list <;> infer_instance

/-- The timer is the head, and another one waits behind it. -/
def Leads (timer : Nat) (s : Timers) : Prop :=
  match s.list with
  | [] => False
  | h :: l => h.timer = timer ∧ l ≠ []

instance (timer : Nat) : DecidablePred (Leads timer) := fun s => by
  unfold Leads
  cases s.list <;> infer_instance

def Allowed (s : Timers) : Action → Prop
  | .wait _ => True
  | .start timer => timerExists timer s.list = false → Timed s
  | .stop timer => Leads timer s → Timed s
  | .setValue timer _ => Leads timer s → Timed s
  | .handler => Timed s ∨ Flushed s

instance (s : Timers) : DecidablePred (Allowed s)
  | .wait _ => .isTrue trivial
  | .start timer => inferInstanceAs (Decidable (timerExists timer s.list = false → Timed s))
  | .stop timer => inferInstanceAs (Decidable (Leads timer s → Timed s))
  | .setValue timer _ => inferInstanceAs (Decidable (Leads timer s → Timed s))
  | .handler => inferInstanceAs (Decidable (Timed s ∨ Flushed s))

/-- No timer is started. -/
structure Start (s : Timers) : Prop where
  list : s.list = []
  due : ∀ e, s.due e = none

/-- The times of the list are the times the timers are due, and they lie within one word. -/
structure Inv (s : Timers) : Prop where
  running : ∀ h ∈ s.list.head?, h.bIsRunning = true
  nodup : ((deltas s.list).map Prod.fst).Nodup
  due : ∀ e d, s.due e = some d ↔ (e, d) ∈ DeltaList.times s.base (deltas s.list)
  window : ∃ lo, lo ≤ now s ∧
    ∀ x ∈ DeltaList.times s.base (deltas s.list), lo ≤ x.2 ∧ x.2 < lo + 2 ^ 32

theorem Start.inv {s : Timers} (h : Start s) : Inv s := by
  have hl := h.list
  refine ⟨?_, ?_, ?_, now s, Nat.le_refl _, ?_⟩
  · simp [hl]
  · simp [hl]
  · simp [hl, h.due]
  · simp [hl]

/-- What the head has left once the time since boot is taken off. -/
theorem toNat_remainingTime {v : UInt32} {h : Entry} (hr : h.bIsRunning = true) :
    (remainingTime v h).toNat = h.ulTimestamp.toNat - min v.toNat h.ulTimestamp.toNat := by
  rw [remainingTime, if_pos hr]
  by_cases hv : v > h.ulTimestamp
  · have hv' := UInt32.lt_iff_toNat_lt.mp hv
    rw [if_pos hv, UInt32.sub_self, Nat.min_eq_right (Nat.le_of_lt hv')]
    simp
  · have hle : v ≤ h.ulTimestamp := UInt32.not_lt.mp hv
    rw [if_neg hv, UInt32.toNat_sub_of_le _ _ hle,
      Nat.min_eq_left (UInt32.le_iff_toNat_le.mp hle)]

theorem deltas_elapse (v : UInt32) (h : Entry) (l : List Entry) :
    deltas (elapse v (h :: l)) =
      (h.timer, h.ulTimestamp.toNat - min v.toNat h.ulTimestamp.toNat) :: deltas l := by
  rw [elapse, deltas_cons]
  by_cases hv : v > h.ulTimestamp
  · have hv' := UInt32.lt_iff_toNat_lt.mp hv
    simp [hv, Nat.min_eq_right (Nat.le_of_lt hv')]
  · have hle : v ≤ h.ulTimestamp := UInt32.not_lt.mp hv
    simp [hv, UInt32.toNat_sub_of_le _ _ hle, Nat.min_eq_left (UInt32.le_iff_toNat_le.mp hle)]

/-- Counted down by the time since it was set, the list says when its timers are due from now. -/
theorem times_elapse {s : Timers} (h : Timed s) :
    DeltaList.times (now s) (deltas (elapse (getValue s) s.list)) =
      DeltaList.times s.base (deltas s.list) := by
  cases hl : s.list with
  | nil => rfl
  | cons e l =>
    have ht : s.base + min (getValue s).toNat e.ulTimestamp.toNat = now s := by
      simpa [Timed, hl] using h
    have hd : now s + (e.ulTimestamp.toNat - min (getValue s).toNat e.ulTimestamp.toNat) =
        s.base + e.ulTimestamp.toNat := by omega
    rw [deltas_elapse, deltas_cons, DeltaList.times_cons, DeltaList.times_cons, hd]

theorem deltas_takeWhile (l : List Entry) :
    (l.takeWhile fun e => e.ulTimestamp = 0).map Entry.timer = DeltaList.reached (deltas l) := by
  induction l with
  | nil => rfl
  | cons e l ih =>
    by_cases h : e.ulTimestamp = 0
    · simpa [DeltaList.reached, h] using ih
    · have h' : e.ulTimestamp.toNat ≠ 0 := fun h0 => h (UInt32.toNat_inj.mp h0)
      simp [DeltaList.reached, h, h']

theorem deltas_dropWhile (l : List Entry) :
    deltas (l.dropWhile fun e => e.ulTimestamp = 0) = DeltaList.rest (deltas l) := by
  induction l with
  | nil => rfl
  | cons e l ih =>
    by_cases h : e.ulTimestamp = 0
    · simpa [DeltaList.rest, h] using ih
    · have h' : e.ulTimestamp.toNat ≠ 0 := fun h0 => h (UInt32.toNat_inj.mp h0)
      simp [DeltaList.rest, h, h']

theorem elapse_keys (v : UInt32) (l : List Entry) :
    (deltas (elapse v l)).map Prod.fst = (deltas l).map Prod.fst := by
  cases l <;> rfl

theorem called_eq (s : Timers) :
    called s = DeltaList.reached (deltas (elapse (getValue s) s.list)) :=
  deltas_takeWhile _

theorem deltas_handler (s : Timers) :
    deltas (handler s).list = DeltaList.rest (deltas (elapse (getValue s) s.list)) := by
  rw [handler, deltas_setHead, deltas_dropWhile]

/-- A list that is flushed is counted down to zero throughout, and each of its timers is due. -/
theorem Flushed.zero {s : Timers} (h : Flushed s) :
    (∀ x ∈ deltas (elapse (getValue s) s.list), x.2 = 0) ∧
      ∀ x ∈ DeltaList.times s.base (deltas s.list), x.2 ≤ now s := by
  cases hl : s.list with
  | nil => simp [elapse]
  | cons e l =>
    obtain ⟨hv, hle, hz⟩ : e.ulTimestamp ≤ getValue s ∧ s.base + e.ulTimestamp.toNat ≤ now s ∧
        ∀ c ∈ l, c.ulTimestamp = 0 := by simpa only [Flushed, hl] using h
    have hz' : ∀ x ∈ deltas l, x.2 = 0 := by
      intro x hx
      obtain ⟨c, hc, rfl⟩ := List.mem_map.mp hx
      simp [hz c hc]
    constructor
    · have hv' := UInt32.le_iff_toNat_le.mp hv
      rw [deltas_elapse, Nat.min_eq_right hv', Nat.sub_self, List.forall_mem_cons]
      exact ⟨rfl, hz'⟩
    · rw [deltas_cons, DeltaList.times_cons, List.forall_mem_cons]
      refine ⟨hle, fun x hx => ?_⟩
      rw [DeltaList.times_of_zero hz' hx]
      exact hle

theorem Inv.exact {s : Timers} (hi : Inv s) (h : Timed s ∨ Flushed s) : Exact s := by
  have hk : ((deltas (elapse (getValue s) s.list)).map Prod.fst).Nodup := by
    rw [elapse_keys]
    exact hi.nodup
  refine ⟨called_eq s ▸ DeltaList.reached_nodup hk, fun e => ?_⟩
  rw [called_eq]
  obtain h | h := h
  · rw [DeltaList.mem_reached (b := now s), times_elapse h]
    simp only [hi.due]
  · obtain ⟨hz, hd⟩ := h.zero
    rw [DeltaList.reached_of_zero hz, elapse_keys, ← DeltaList.times_keys (b := s.base)]
    simp only [hi.due, List.mem_map]
    constructor
    · rintro ⟨x, hx, rfl⟩
      exact ⟨x.2, hx, hd x hx⟩
    · rintro ⟨d, hx, -⟩
      exact ⟨(e, d), hx, rfl⟩

theorem Inv.handler {s : Timers} (hi : Inv s) (h : Timed s ∨ Flushed s) : Inv (handler s) := by
  have hmem : ∀ x, x ∈ DeltaList.times (now s) (deltas (Timer.handler s).list) ↔
      x ∈ DeltaList.times s.base (deltas s.list) ∧ now s < x.2 := by
    intro x
    rw [deltas_handler]
    obtain h | h := h
    · rw [DeltaList.mem_times_rest, times_elapse h]
    · obtain ⟨hz, hd⟩ := h.zero
      rw [DeltaList.rest_of_zero hz]
      constructor
      · intro hx
        simp at hx
      · rintro ⟨hx, hlt⟩
        exact absurd (hd x hx) (Nat.not_le_of_lt hlt)
  obtain ⟨lo, hlo, hw⟩ := hi.window
  refine ⟨?_, ?_, fun e d => ?_, lo, hlo, fun x hx => hw x ((hmem x).mp hx).1⟩
  · rw [Timer.handler]
    cases (elapse (getValue s) s.list).dropWhile fun e => e.ulTimestamp = 0 <;> simp [setHead]
  · rw [deltas_handler]
    apply DeltaList.rest_keys
    rw [elapse_keys]
    exact hi.nodup
  · change (s.due e).filter _ = some d ↔ (e, d) ∈ DeltaList.times (now s) _
    rw [hmem, ← hi.due, Option.filter_eq_some_iff]
    simp

section Changes

variable {s t : Timers} {timer : Nat}

theorem Inv.of_insert (hi : Inv s) (timer d : Nat) (hrun : ∀ h ∈ t.list.head?, h.bIsRunning = true)
    (hnow : now t = now s) (hnew : timer ∉ (deltas s.list).map Prod.fst)
    (hdue : t.due = Function.update s.due timer (some d)) (hd : now s ≤ d)
    (hd' : d < now s + 2 ^ 32) (hle : ∀ x ∈ DeltaList.times s.base (deltas s.list), now s ≤ x.2)
    (hp : (DeltaList.times t.base (deltas t.list)).Perm
      ((timer, d) :: DeltaList.times s.base (deltas s.list))) : Inv t := by
  obtain ⟨lo, hlo, hw⟩ := hi.window
  have hmem : ∀ x, x ∈ DeltaList.times t.base (deltas t.list) ↔
      x = (timer, d) ∨ x ∈ DeltaList.times s.base (deltas s.list) := fun x => by
    rw [hp.mem_iff, List.mem_cons]
  refine ⟨hrun, ?_, fun e c => ?_, now s, Nat.le_of_eq hnow.symm, fun x hx => ?_⟩
  · rw [← DeltaList.times_keys (b := t.base), (hp.map Prod.fst).nodup_iff, List.map_cons,
      List.nodup_cons, DeltaList.times_keys]
    exact ⟨hnew, hi.nodup⟩
  · rw [hmem, hdue]
    by_cases he : e = timer
    · subst he
      have hno : (e, c) ∉ DeltaList.times s.base (deltas s.list) := fun hm =>
        hnew (DeltaList.times_keys (b := s.base) ▸ List.mem_map_of_mem hm)
      rw [Function.update_self]
      constructor
      · intro h
        cases h
        exact Or.inl rfl
      · rintro (h | h)
        · cases h
          rfl
        · exact absurd h hno
    · simp [he, hi.due]
  · obtain rfl | hx := (hmem x).mp hx
    · exact ⟨hd, hd'⟩
    · have hx' := hw x hx
      exact ⟨hle x hx, by omega⟩

theorem Inv.of_remove (hi : Inv s) (hrun : ∀ h ∈ t.list.head?, h.bIsRunning = true)
    (hnow : now t = now s) (hdue : t.due = Function.update s.due timer none)
    (hp : DeltaList.times t.base (deltas t.list) =
      DeltaList.times s.base (DeltaList.remove timer (deltas s.list))) : Inv t := by
  obtain ⟨lo, hlo, hw⟩ := hi.window
  have hmem : ∀ x, x ∈ DeltaList.times t.base (deltas t.list) ↔
      x ∈ DeltaList.times s.base (deltas s.list) ∧ x.1 ≠ timer := fun x => by
    rw [hp, DeltaList.mem_times_remove hi.nodup]
  refine ⟨hrun, ?_, fun e c => ?_, lo, hlo.trans (Nat.le_of_eq hnow.symm), fun x hx => hw x ((hmem x).mp hx).1⟩
  · rw [← DeltaList.times_keys (b := t.base), hp, DeltaList.times_keys]
    exact DeltaList.remove_keys hi.nodup
  · rw [hmem, hdue]
    by_cases he : e = timer
    · simp [he]
    · simp [he, hi.due]

theorem Inv.start (hi : Inv s) (h : timerExists timer s.list = false → Timed s) :
    Inv (start timer s) := by
  by_cases hex : timerExists timer s.list = true
  · rw [Timer.start, if_pos hex]
    exact hi
  have hnew : timer ∉ (deltas s.list).map Prod.fst := fun hm => hex (timerExists_iff.mpr hm)
  have hT := h (by simpa using hex)
  have hV := (s.reload timer).toNat_lt
  obtain ⟨lo, hlo, hw⟩ := hi.window
  rw [Timer.start, if_neg hex]
  cases hl : s.list with
  | nil =>
    refine hi.of_insert timer _ ?_ rfl hnew rfl (Nat.le_add_right _ _) (by omega) ?_ ?_
    · simp
    · simp [hl]
    · simp [hl]
  | cons e l =>
    have ht : s.base + min (getValue s).toNat e.ulTimestamp.toNat = now s := by
      simpa [Timed, hl] using hT
    have hR := toNat_remainingTime (v := getValue s) (hi.running e (by simp [hl]))
    have hd : s.base + e.ulTimestamp.toNat = now s + (remainingTime (getValue s) e).toNat := by
      omega
    rw [hl, deltas_cons, DeltaList.times_cons, hd] at hw
    have hle : ∀ x ∈ DeltaList.times s.base (deltas s.list), now s ≤ x.2 := by
      rw [hl, deltas_cons, DeltaList.times_cons, List.forall_mem_cons, hd]
      refine ⟨Nat.le_add_right _ _, fun x hx => ?_⟩
      exact Nat.le_trans (Nat.le_add_right _ _) (DeltaList.le_of_mem_times hx)
    dsimp only
    split
    next hlt =>
      have hlt' := UInt32.lt_iff_toNat_lt.mp hlt
      have hsub := UInt32.toNat_sub_of_le _ _ (UInt32.le_of_lt hlt)
      have hd' : now s + (s.reload timer).toNat +
          ((remainingTime (getValue s) e).toNat - (s.reload timer).toNat) =
            s.base + e.ulTimestamp.toNat := by omega
      refine hi.of_insert timer _ (by simp) rfl hnew rfl (Nat.le_add_right _ _)
        (by omega) hle ?_
      simp [hl, hsub, hd']
    next hge =>
      have hge' : remainingTime (getValue s) e ≤ s.reload timer := UInt32.not_lt.mp hge
      have hgeN := UInt32.le_iff_toNat_le.mp hge'
      have hfit : ∀ x ∈ DeltaList.times (remainingTime (getValue s) e).toNat (deltas l),
          x.2 < 2 ^ 32 := by
        intro x hx
        have hx' := List.mem_map_of_mem (f := fun y : Nat × Nat => (y.1, y.2 + now s)) hx
        rw [← DeltaList.times_add, Nat.add_comm] at hx'
        have := hw _ (List.mem_cons_of_mem _ hx')
        omega
      have hd' : s.base + e.ulTimestamp.toNat +
          ((s.reload timer).toNat - (remainingTime (getValue s) e).toNat) =
            now s + (s.reload timer).toNat := by omega
      refine hi.of_insert timer _ ?_ rfl hnew rfl (Nat.le_add_right _ _) (by omega)
        hle ?_
      · intro x hx
        exact hi.running x (by simpa [hl] using hx)
      · have hins := DeltaList.times_insert (i := timer) (b := s.base + e.ulTimestamp.toNat)
          (t := (s.reload timer).toNat - (remainingTime (getValue s) e).toNat) (l := deltas l)
        rw [hd'] at hins
        simp only [hl, deltas_cons, DeltaList.times_cons, deltas_insertTimer hge' hfit]
        exact (hins.cons _).trans (List.Perm.swap _ _ _)

theorem head_running_dropHead {v : UInt32} {h : Entry} {l : List Entry}
    (hr : h.bIsRunning = true) : ∀ x ∈ (dropHead v h l).head?, x.bIsRunning = true := by
  rw [dropHead, if_pos hr]
  cases takeOver (remainingTime v h) l <;> simp [setHead]

theorem Inv.stop (hi : Inv s) (h : Leads timer s → Timed s) : Inv (stop timer s) := by
  obtain ⟨lo, hlo, hw⟩ := hi.window
  rw [Timer.stop]
  cases hl : s.list with
  | nil => exact hi.of_remove (by simp) rfl rfl (by simp [hl, DeltaList.remove])
  | cons e l =>
    have hr := hi.running e (by simp [hl])
    rw [hl, deltas_cons, DeltaList.times_cons, List.forall_mem_cons] at hw
    dsimp only
    by_cases he : e.timer = timer
    · rw [if_pos he]
      refine hi.of_remove (head_running_dropHead hr) rfl rfl ?_
      rw [hl, deltas_cons, DeltaList.remove, if_pos he, DeltaList.times_delay, dropHead,
        if_pos hr, deltas_setHead]
      cases l with
      | nil => rfl
      | cons n l =>
        have ht : s.base + min (getValue s).toNat e.ulTimestamp.toNat = now s := by
          simpa [Timed, hl] using h (by simp [Leads, hl, he])
        have hR := toNat_remainingTime (v := getValue s) hr
        have hd : s.base + e.ulTimestamp.toNat =
            now s + (remainingTime (getValue s) e).toNat := by omega
        rw [hd] at hw ⊢
        have hfit : ∀ x ∈ DeltaList.times (now s + (remainingTime (getValue s) e).toNat)
            (deltas (n :: l)), x.2 < now s + 2 ^ 32 := by
          intro x hx
          have hx' := hw.2 x hx
          omega
        rw [deltas_takeOver hfit, DeltaList.times_delay]
    · rw [if_neg he]
      refine hi.of_remove (by simpa using hr) rfl rfl ?_
      have hfit : ∀ x ∈ DeltaList.times (s.base + e.ulTimestamp.toNat) (deltas l),
          x.2 < s.base + e.ulTimestamp.toNat + 2 ^ 32 := by
        intro x hx
        have hx' := hw.2 x hx
        omega
      rw [hl, deltas_cons, deltas_cons, DeltaList.remove, if_neg he, deltas_removeTimer hfit]

theorem Inv.step {a : Action} (hi : Inv s) (ha : Allowed s a) (hst : step s a = some t) :
    Inv t := by
  cases a with
  | wait ms =>
    cases hst
    obtain ⟨lo, hlo, hw⟩ := hi.window
    refine ⟨hi.running, hi.nodup, hi.due, lo, ?_, hw⟩
    have hc : now s ≤ now { s with clock := s.clock + ms } :=
      Nat.mul_le_mul_right 1000 (Nat.le_add_right s.clock ms)
    exact Nat.le_trans hlo hc
  | start timer =>
    cases hst
    exact hi.start ha
  | stop timer =>
    cases hst
    exact hi.stop ha
  | setValue timer ulValue =>
    cases hst
    have hs := hi.stop ha
    exact ⟨hs.running, hs.nodup, hs.due, hs.window⟩
  | handler =>
    cases hst
    exact hi.handler ha

end Changes

/-- Every handler run of a run whose steps are all allowed is exact. -/
theorem exact_of_allowed {s u : Timers} {acts : List Action} (hs : Start s)
    (h : ∀ v a, Runs.Takes step s acts v a → Allowed v a)
    (hu : Runs.Takes step s acts u .handler) : Exact u := by
  have hi : Inv u := by
    obtain ⟨pre, hp, hpre⟩ := hu
    exact Runs.inv_of_takes hs.inv (fun _ _ _ hv ha hst => hv.step ha hst) h
      ⟨pre, (List.prefix_append pre [.handler]).trans hp, hpre⟩
  exact hi.exact (h u .handler hu)

section Runs

def idle : Timers where
  clock := 0
  list := []
  reload := fun _ => 0
  due := fun _ => none
  base := 0

theorem start_idle : Start idle := ⟨rfl, fun _ => rfl⟩

/-- Two timers started as the unit boots, and the handler each time the head is due. -/
def bootTimers : List Action :=
  [.setValue 1 5000, .setValue 2 9000, .start 1, .start 2, .wait 5, .handler, .wait 4]

theorem bootTimers_exact :
    ∃ u, Runs.exec step bootTimers idle = some u ∧ called u = [2] ∧ Exact u :=
  ⟨_, rfl, by decide +kernel,
    @exact_of_allowed idle _ (bootTimers ++ [.handler]) start_idle
      (Runs.takes_of_along (by decide +kernel)) ⟨bootTimers, List.prefix_rfl, rfl⟩⟩

/-- A timer of ten seconds, started twenty seconds after boot, is over at once. -/
def lateTimer : List Action := [.wait 20000, .setValue 1 10000000, .start 1]

theorem lateTimer_called_back : ¬ ∀ (s u : Timers) (acts : List Action), Start s →
    Runs.Takes step s acts u .handler → Exact u := by
  intro h
  obtain ⟨-, hc⟩ := h idle _ (lateTimer ++ [.handler]) start_idle
    ⟨lateTimer, List.prefix_rfl, rfl⟩
  obtain ⟨d, hd, hle⟩ := (hc 1).mp (by decide +kernel)
  cases hd
  revert hle
  decide +kernel

end Runs

end EdgeNode.Timer
