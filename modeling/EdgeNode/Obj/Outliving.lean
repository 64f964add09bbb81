import EdgeNode.Obj.Timers

/-! When no timer outlives the object that it was started for. -/

namespace EdgeNode.Obj

open Handles Handles.Timers Runs

variable {ο : Type} [DecidableEq ο]

namespace TimedDriver

/-- A sensor unit's last conversion is still pending, or its handle is zero. -/
def StopAllowed (t : Timers ο TimerSlot) (o : ο) : TimedDriver → Prop
  | gus pModelInfo => pModelInfo.fRun = true ∨ t.Current o .hConvertTimer
  | ds18b20 | ifce => True

def RunAllowed (t : Timers ο TimerSlot) (o : ο) (isValid : Bool) : TimedDriver → Prop
  | ds18b20 => isValid = true → ¬ t.Pends o .hRepeatTimer ∧ ¬ t.Pends o .hConvertTimer
  | d => d.StopAllowed t o

def RestartAllowed (t : Timers ο TimerSlot) (o : ο) (enabled : Bool) (xConvert : Nat) : TimedDriver → Prop
  | ds18b20 => enabled = true → ¬ t.Pends o .hConvertTimer
  | gus pModelInfo =>
    if enabled then pModelInfo.fRequest = true → xConvert ≠ 0 → ¬ t.Pends o .hConvertTimer
    else (gus pModelInfo).StopAllowed t o
  | ifce => True

instance (t : Timers ο TimerSlot) (o : ο) (d : TimedDriver) : Decidable (d.StopAllowed t o) := by
  cases d <;> unfold StopAllowed <;> infer_instance

instance (t : Timers ο TimerSlot) (o : ο) (isValid : Bool) (d : TimedDriver) :
    Decidable (d.RunAllowed t o isValid) := by
  cases d <;> unfold RunAllowed <;> infer_instance

instance (t : Timers ο TimerSlot) (o : ο) (enabled : Bool) (xConvert : Nat) (d : TimedDriver) :
    Decidable (d.RestartAllowed t o enabled xConvert) := by
  cases d <;> unfold RestartAllowed <;> infer_instance

/-- What holds of the handles of a live object: only those of conversions of a sensor unit may be of
timers that fired. -/
structure Fits (d : TimedDriver) (t : Timers ο TimerSlot) (o : ο) : Prop where
  repeats : t.Current o .hRepeatTimer
  converts : (∀ pModelInfo, d ≠ gus pModelInfo) → t.Current o .hConvertTimer
  own : ∀ pModelInfo, d = gus pModelInfo → pModelInfo.fRun = true → ∀ k, ¬ t.Pends o k
  none : d = ifce → ¬ t.Pends o .hConvertTimer

variable {t t' : Timers ο TimerSlot} {o p : ο} {ks : Set TimerSlot} {d : TimedDriver}

omit [DecidableEq ο] in
theorem Fits.of_keeps (h : d.Fits t p) (hk : Keeps t t' o ks) (hne : p ≠ o) : d.Fits t' p where
  repeats := (hk.current (.inl hne)).mpr h.repeats
  converts hd := (hk.current (.inl hne)).mpr (h.converts hd)
  own i hi hr k := (hk.pends p k (.inl hne)).not.mpr (h.own i hi hr k)
  none hd := (hk.pends p _ (.inl hne)).not.mpr (h.none hd)

omit [DecidableEq ο] in
/-- A temperature sensor has but the two handles. -/
theorem fits_ds18b20 (hr : t.Current o .hRepeatTimer) (hc : t.Current o .hConvertTimer) :
    ds18b20.Fits t o where
  repeats := hr
  converts _ := hc
  own _ hd := TimedDriver.noConfusion hd
  none hd := TimedDriver.noConfusion hd

omit [DecidableEq ο] in
theorem fits_gus {i : ModelInfo} (hr : t.Current o .hRepeatTimer)
    (hown : i.fRun = true → ∀ k, ¬ t.Pends o k) : (gus i).Fits t o where
  repeats := hr
  converts hd := absurd rfl (hd i)
  own _ hd := gus.inj hd ▸ hown
  none hd := TimedDriver.noConfusion hd

omit [DecidableEq ο] in
theorem fits_ifce (hr : t.Current o .hRepeatTimer) (hc : t.Current o .hConvertTimer)
    (hidle : ¬ t.Pends o .hConvertTimer) : ifce.Fits t o where
  repeats := hr
  converts _ := hc
  own _ hd := TimedDriver.noConfusion hd
  none _ := hidle

/-- Cancelling both timers where their handles are current. -/
theorem cancel_both (ht : t.Tracked) (k l : TimerSlot) (hkl : k ≠ l) (hk : t.Current o k)
    (hl : t.Current o l) : Keeps t ((t.cancel o k).cancel o l) o ({k} ∪ {l}) ∧
      ((t.cancel o k).cancel o l).handle o k = 0 ∧ ((t.cancel o k).cancel o l).handle o l = 0 := by
  obtain ⟨hkeep, hzero⟩ := ht.cancel hk
  have hl' := (hkeep.current (p := o) (l := l) (.inr fun h => hkl (Eq.symm h))).mpr hl
  obtain ⟨hkeep', hzero'⟩ := hkeep.tracked.cancel hl'
  refine ⟨hkeep.trans hkeep', ?_, hzero'⟩
  rw [hkeep'.handle o k (.inr hkl), hzero]

omit [DecidableEq ο] in
/-- A step that leaves both handles of the object zero. -/
theorem Fits.of_zero (ht : t.Tracked) (h : ∀ k, t.handle o k = 0) :
    d.Fits t o ∧ ∀ k, ¬ t.Pends o k :=
  ⟨⟨.inl (h _), fun _ => .inl (h _), fun _ _ _ k => ht.not_pends (h k), fun _ => ht.not_pends (h _)⟩,
    fun k => ht.not_pends (h k)⟩

theorem stop_keeps (ht : t.Tracked) (h : d.Fits t o) (ha : d.StopAllowed t o) (own : Ret) :
    Keeps t (d.stop t o own).2 o Set.univ ∧ d.Fits (d.stop t o own).2 o ∧
      ∀ k, ¬ (d.stop t o own).2.Pends o k := by
  cases d with
  | ds18b20 =>
    obtain ⟨hkeep, hr, hc⟩ := cancel_both ht .hRepeatTimer .hConvertTimer (by decide) h.repeats
      (h.converts nofun)
    exact ⟨hkeep.mono (Set.subset_univ _), Fits.of_zero hkeep.tracked fun k => by cases k <;> assumption⟩
  | gus pModelInfo =>
    cases hrun : pModelInfo.fRun with
    | true =>
      have hown := h.own pModelInfo rfl hrun
      rw [stop, gusStop, if_pos hrun]
      exact ⟨.refl ht o _, h, hown⟩
    | false =>
      have hconv : t.Current o .hConvertTimer := ha.resolve_left (by simp [hrun])
      obtain ⟨hkeep, hc, hr⟩ := cancel_both ht .hConvertTimer .hRepeatTimer (by decide) hconv h.repeats
      rw [stop, gusStop, if_neg (by simp [hrun])]
      exact ⟨hkeep.mono (Set.subset_univ _),
        Fits.of_zero hkeep.tracked fun k => by cases k <;> assumption⟩
  | ifce =>
    obtain ⟨hkeep, hr⟩ := ht.cancel h.repeats
    have hne : TimerSlot.hConvertTimer ∉ ({.hRepeatTimer} : Set TimerSlot) := nofun
    have hc : (t.cancel o .hRepeatTimer).handle o .hConvertTimer = 0 := by
      rw [hkeep.handle o _ (.inr hne)]
      exact (h.converts nofun).handle_eq_zero (h.none rfl)
    exact ⟨hkeep.mono (Set.subset_univ _), Fits.of_zero hkeep.tracked fun k => by cases k <;> assumption⟩

theorem convert_ne_repeat : TimerSlot.hConvertTimer ∉ ({.hRepeatTimer} : Set TimerSlot) := nofun

theorem repeat_ne_convert : TimerSlot.hRepeatTimer ∉ ({.hConvertTimer} : Set TimerSlot) := nofun

/-- Clearing both handles where no timer is pending. -/
theorem clear_both (ht : t.Tracked) (hidle : ∀ k, ¬ t.Pends o k) :
    Keeps t ((t.clear o .hRepeatTimer).clear o .hConvertTimer) o Set.univ ∧
      ∀ k, ((t.clear o .hRepeatTimer).clear o .hConvertTimer).handle o k = 0 := by
  obtain ⟨hk, hr⟩ := ht.clear (hidle .hRepeatTimer)
  obtain ⟨hk', hc⟩ := hk.tracked.clear
    ((hk.pends o .hConvertTimer (.inr convert_ne_repeat)).not.mpr (hidle _))
  refine ⟨(hk.trans hk').mono (Set.subset_univ _), fun k => ?_⟩
  cases k with
  | hRepeatTimer => rw [hk'.handle o _ (.inr repeat_ne_convert), hr]
  | hConvertTimer => exact hc

theorem runTimer_keeps {k : TimerSlot} {xTimerID : Nat} {xRet : Ret} (ht : t.Tracked)
    (hc : t.Current o k) (hidle : xTimerID ≠ 0 → ¬ t.Pends o k)
    (h : runTimer t o k xTimerID = some (xRet, t')) : Keeps t t' o {k} ∧ t'.Current o k := by
  rw [runTimer] at h
  split at h
  next hid =>
    obtain ⟨t₁, ht₁, heq⟩ := Option.map_eq_some_iff.mp h
    cases heq
    obtain ⟨hkeep, -, hcur⟩ := ht.start (hidle hid) ht₁
    exact ⟨hkeep, hcur⟩
  next =>
    cases h
    exact ⟨.refl ht o _, hc⟩

/-- A measurement leaves the repeat timer alone. -/
theorem startMeasurement_keeps {i : ModelInfo} {xConvert : Nat} {xRet : Ret} (ht : t.Tracked)
    (hidle : i.fRequest = true → xConvert ≠ 0 → ¬ t.Pends o .hConvertTimer)
    (h : gusStartMeasurement t o i xConvert = some (xRet, t')) : Keeps t t' o {.hConvertTimer} := by
  rw [gusStartMeasurement] at h
  split at h
  next hreq =>
    rw [runTimer] at h
    split at h
    next hid =>
      obtain ⟨t₁, ht₁, heq⟩ := Option.map_eq_some_iff.mp h
      cases heq
      exact (ht.start (hidle hreq hid) ht₁).1
    next =>
      cases h
      exact .refl ht o _
  next =>
    cases h
    exact .refl ht o _

theorem run_keeps {isValid : Bool} {own xRet : Ret} {xRepeat xConvert : Nat} (ht : t.Tracked)
    (hf : d.Fits t o) (ha : d.RunAllowed t o isValid)
    (h : d.run t o isValid own xRepeat xConvert = some (xRet, t')) :
    Keeps t t' o Set.univ ∧ d.Fits t' o := by
  cases d with
  | ds18b20 =>
    rw [run, ds18b20Run] at h
    split at h
    next hvalid =>
      obtain ⟨hr, hc⟩ := ha hvalid
      obtain ⟨t₁, ht₁, h⟩ := Option.bind_eq_some_iff.mp h
      obtain ⟨t₂, ht₂, h⟩ := Option.bind_eq_some_iff.mp h
      cases h
      obtain ⟨hk₁, -, hcur₁⟩ := ht.start hr ht₁
      have hidle : ¬ t₁.Pends o .hConvertTimer := (hk₁.pends o _ (.inr convert_ne_repeat)).not.mpr hc
      obtain ⟨hk₂, -, hcur₂⟩ := hk₁.tracked.start hidle ht₂
      exact ⟨(hk₁.trans hk₂).mono (Set.subset_univ _),
        fits_ds18b20 ((hk₂.current (.inr repeat_ne_convert)).mpr hcur₁) hcur₂⟩
    next =>
      cases h
      exact ⟨.refl ht o _, hf⟩
  | gus i =>
    rw [run, gusRun] at h
    split at h
    next =>
      cases h
      exact ⟨.refl ht o _, hf⟩
    next hrun =>
      obtain ⟨⟨r₁, t₁⟩, ht₁, h⟩ := Option.bind_eq_some_iff.mp h
      obtain ⟨hk, hc, hr⟩ := cancel_both ht .hConvertTimer .hRepeatTimer (by decide)
        (Or.resolve_left ha hrun) hf.repeats
      have hk₁ := startMeasurement_keeps hk.tracked (fun _ _ => hk.tracked.not_pends hc) ht₁
      have hr₁ := hk₁.handle o .hRepeatTimer (.inr repeat_ne_convert)
      rw [hr] at hr₁
      obtain ⟨hk₂, hcur₂⟩ := runTimer_keeps hk₁.tracked (.inl hr₁)
        (fun _ => hk₁.tracked.not_pends hr₁) h
      exact ⟨((hk.trans hk₁).trans hk₂).mono (Set.subset_univ _),
        fits_gus hcur₂ fun hown => absurd hown hrun⟩
  | ifce =>
    obtain ⟨t₁, ht₁, heq⟩ := Option.map_eq_some_iff.mp h
    cases heq
    obtain ⟨hk, hr⟩ := ht.cancel hf.repeats
    obtain ⟨hk₁, -, hcur⟩ := hk.tracked.start (hk.tracked.not_pends hr) ht₁
    have hk₂ := hk.trans hk₁
    have hne : TimerSlot.hConvertTimer ∉ ({.hRepeatTimer} ∪ {.hRepeatTimer} : Set TimerSlot) := nofun
    have hc := (hk₂.current (.inr hne)).mpr (hf.converts nofun)
    have hidle := (hk₂.pends o _ (.inr hne)).not.mpr (hf.none rfl)
    exact ⟨hk₂.mono (Set.subset_univ _), fits_ifce hcur hc hidle⟩

theorem attach_keeps {xRepeat : Option Nat} (ht : t.Tracked) (hzero : ∀ k, t.handle o k = 0)
    (h : d.attach t o xRepeat = some t') : Keeps t t' o Set.univ ∧ d.Fits t' o := by
  have hfits : d.Fits t o := (Fits.of_zero ht hzero).1
  unfold attach at h
  split at h
  next xRepeat =>
    obtain ⟨⟨xRet, t₁⟩, ht₁, heq⟩ := Option.map_eq_some_iff.mp h
    cases heq
    have hrun : ifce.run t o true retOk xRepeat 0 = some (xRet, t₁) := ht₁
    exact run_keeps ht hfits trivial hrun
  next =>
    cases h
    exact ⟨.refl ht o _, hfits⟩

omit [DecidableEq ο] in
/-- The repeat timer of a sensor unit fires: its model does not run by itself. -/
theorem Fits.not_own {i : ModelInfo} {k : TimerSlot} (hf : (gus i).Fits t o) (hp : t.Pends o k) :
    i.fRun ≠ true := fun hrun => hf.own i rfl hrun k hp

theorem restart_keeps {own : Ret} {enabled : Bool} {xConvert : Nat} (ht : t.Tracked)
    (hf : d.Fits t o) (hp : t.Pends o .hRepeatTimer) (ha : d.RestartAllowed t o enabled xConvert)
    (h : d.restartConvert t o own enabled xConvert = some t') :
    Keeps t t' o Set.univ ∧ d.Fits t' o := by
  cases d with
  | ds18b20 =>
    rw [restartConvert, ds18b20RestartConvert] at h
    split at h
    next hen =>
      obtain ⟨hk, -, hcur⟩ := ht.start (ha hen) h
      exact ⟨hk.mono (Set.subset_univ _),
        fits_ds18b20 ((hk.current (.inr repeat_ne_convert)).mpr hf.repeats) hcur⟩
    next =>
      cases h
      obtain ⟨hk, hr⟩ := ht.cancel hf.repeats
      have hc := hf.converts fun _ hd => TimedDriver.noConfusion hd
      exact ⟨hk.mono (Set.subset_univ _),
        fits_ds18b20 (.inl hr) ((hk.current (.inr convert_ne_repeat)).mpr hc)⟩
  | gus i =>
    have hrun := hf.not_own hp
    rw [restartConvert, gusRestartConvert] at h
    split at h
    next hen =>
      obtain ⟨⟨r₁, t₁⟩, ht₁, heq⟩ := Option.map_eq_some_iff.mp h
      cases heq
      rw [RestartAllowed, if_pos hen] at ha
      have hk := startMeasurement_keeps ht ha ht₁
      exact ⟨hk.mono (Set.subset_univ _),
        fits_gus ((hk.current (.inr repeat_ne_convert)).mpr hf.repeats) fun hown => absurd hown hrun⟩
    next hen =>
      cases h
      rw [RestartAllowed, if_neg hen] at ha
      obtain ⟨hk, hfits, -⟩ := stop_keeps ht hf ha own
      exact ⟨hk, hfits⟩
  | ifce =>
    rw [restartConvert, ifceRestartConvert] at h
    cases h
    split
    · exact ⟨.refl ht o _, hf⟩
    · obtain ⟨hk, hr⟩ := ht.cancel hf.repeats
      have hc := hf.converts fun _ hd => TimedDriver.noConfusion hd
      have hidle := (hk.pends o _ (.inr convert_ne_repeat)).not.mpr (hf.none rfl)
      exact ⟨hk.mono (Set.subset_univ _),
        fits_ifce (.inl hr) ((hk.current (.inr convert_ne_repeat)).mpr hc) hidle⟩

theorem done_keeps {id : Nat} (ht : t.Tracked) (hf : d.Fits t o)
    (hid : t.pending id = some (o, .hConvertTimer)) :
    Keeps t (d.done (t.expire id) o) o Set.univ ∧ d.Fits (d.done (t.expire id) o) o := by
  obtain ⟨hk, hidle⟩ := ht.expire hid
  have hp : t.Pends o .hConvertTimer := by
    rw [Pends, (ht _ _ _ hid).2]
    exact hid
  have hr := (hk.current (.inr repeat_ne_convert)).mpr hf.repeats
  cases d with
  | ds18b20 =>
    obtain ⟨hk₁, hc⟩ := hk.tracked.clear hidle
    exact ⟨(hk.trans hk₁).mono (Set.subset_univ _),
      fits_ds18b20 ((hk₁.current (.inr repeat_ne_convert)).mpr hr) (.inl hc)⟩
  | gus i => exact ⟨hk.mono (Set.subset_univ _), fits_gus hr fun hown => absurd hown (hf.not_own hp)⟩
  | ifce => exact absurd hp (hf.none rfl)

/-- Behind a stop a detachment finds nothing to cancel. -/
theorem detach_keeps (ht : t.Tracked) (h : ∀ k, ¬ t.Pends o k) (hf : d.Fits t o) :
    Keeps t (d.detach t o) o Set.univ ∧ ∀ k, ¬ (d.detach t o).Pends o k := by
  cases d with
  | ds18b20 =>
    obtain ⟨hk, -, hnone⟩ := stop_keeps ht hf trivial retOk
    exact ⟨hk, hnone⟩
  | gus i => exact ⟨.refl ht o _, h⟩
  | ifce => exact ⟨.refl ht o _, h⟩

end TimedDriver

namespace TimerSystem

/-- The condition on a step: a temperature sensor is run only when no timer of it is pending and fires
its repeat timer enabled only when no conversion is; a sensor unit that does not run by itself starts
no measurement while one is pending, and is run, stopped, destroyed or found disabled only while its
last conversion is pending or before the first. -/
def Allowed (s : TimerSystem ο) : TimerAction ο → Prop
  | .create .. | .setInterval .. => True
  | .run pObj isValid _ _ _ => ∀ obj ∈ s.objects pObj, obj.driver.RunAllowed s.timers pObj isValid
  | .stop pObj _ | .destroy pObj _ => ∀ obj ∈ s.objects pObj, obj.driver.StopAllowed s.timers pObj
  | .fire xTimerID _ enabled xConvert =>
    ∀ p ∈ s.timers.pending xTimerID, p.2 = .hRepeatTimer →
      ∀ obj ∈ s.objects p.1, obj.driver.RestartAllowed s.timers p.1 enabled xConvert

instance (s : TimerSystem ο) : DecidablePred s.Allowed := fun a => by
  cases a <;> unfold Allowed <;> infer_instance

structure Inv (s : TimerSystem ο) : Prop where
  tracked : s.timers.Tracked
  stray : s.timers.stray = false
  fits : ∀ o obj, s.objects o = some obj → obj.driver.Fits s.timers o
  idle : ∀ o, s.stopped o = true ∨ s.objects o = none → ∀ k, ¬ s.timers.Pends o k

variable {s s' : TimerSystem ο} {o : ο} {t : Timers ο TimerSlot}

omit [DecidableEq ο] in
theorem Inv.noneOutlives (h : s.Inv) : s.NoneOutlives where
  stray := h.stray
  stopped o ho id k := h.tracked.pending_ne (h.idle o (.inl ho) k) id
  freed o ho id k := h.tracked.pending_ne (h.idle o (.inr ho) k) id

omit [DecidableEq ο] in
theorem inv_start : (start : TimerSystem ο).Inv :=
  ⟨nofun, rfl, nofun, fun _ _ _ h => nomatch h⟩

/-- A step of one object that leaves its handles fitting. -/
theorem Inv.update (h : s.Inv) (hk : Keeps s.timers t o Set.univ) (obj : Option TimedObject)
    (stopped : Bool) (hfits : ∀ x, obj = some x → x.driver.Fits t o)
    (hidle : stopped = true ∨ obj = none → ∀ k, ¬ t.Pends o k) :
    Inv ⟨t, Function.update s.objects o obj, Function.update s.stopped o stopped⟩ where
  tracked := hk.tracked
  stray := hk.stray.trans h.stray
  fits := by
    intro p x hx
    dsimp only at hx ⊢
    by_cases hp : p = o
    · subst hp
      rw [Function.update_self] at hx
      exact hfits x hx
    · rw [Function.update_of_ne hp] at hx
      exact (h.fits p x hx).of_keeps hk hp
  idle := by
    intro p hx k
    dsimp only at hx ⊢
    by_cases hp : p = o
    · subst hp
      rw [Function.update_self, Function.update_self] at hx
      exact hidle hx k
    · rw [Function.update_of_ne hp, Function.update_of_ne hp] at hx
      exact (hk.pends p k (.inl hp)).not.mpr (h.idle p hx k)

theorem Inv.fire (h : s.Inv) {x : TimedObject} {k : TimerSlot} (hx : s.objects o = some x)
    (hp : s.timers.Pends o k) (hk : Keeps s.timers t o Set.univ) (hfits : x.driver.Fits t o) :
    Inv { s with timers := t } := by
  have hnew := h.update hk (s.objects o) (s.stopped o) (fun y hy => ?_) (fun hidle => ?_)
  · rwa [Function.update_eq_self, Function.update_eq_self] at hnew
  · cases hx.symm.trans hy
    exact hfits
  · exact absurd hp (h.idle o hidle k)

theorem inv_step {a : TimerAction ο} (h : s.Inv) (ha : s.Allowed a) (hs : s.step a = some s') :
    s'.Inv := by
  cases a with
  | create pObj driver nInterval xRepeat =>
    rw [step] at hs
    split at hs
    · cases hs
    next hnone =>
      obtain ⟨t, ht, hs⟩ := Option.bind_eq_some_iff.mp hs
      cases hs
      obtain ⟨hk, hzero⟩ := TimedDriver.clear_both h.tracked (h.idle pObj (.inr hnone))
      obtain ⟨hk₁, hfits⟩ := TimedDriver.attach_keeps hk.tracked hzero ht
      refine h.update (Keeps.mono (hk.trans hk₁) (Set.subset_univ _)) _ false ?_ (by simp)
      rintro _ ⟨⟩
      exact hfits
  | run pObj isValid own xRepeat xConvert =>
    obtain ⟨obj, hobj, hs⟩ := Option.bind_eq_some_iff.mp hs
    obtain ⟨⟨xRet, t⟩, ht, hs⟩ := Option.bind_eq_some_iff.mp hs
    cases hs
    obtain ⟨hk, hfits⟩ := TimedDriver.run_keeps h.tracked (h.fits pObj obj hobj) (ha obj hobj) ht
    have hnew := h.update hk (some obj) false (by rintro _ ⟨⟩; exact hfits) (by simp)
    rwa [← hobj, Function.update_eq_self] at hnew
  | stop pObj own =>
    obtain ⟨obj, hobj, hs⟩ := Option.bind_eq_some_iff.mp hs
    cases hs
    obtain ⟨hk, hfits, hnone⟩ := TimedDriver.stop_keeps h.tracked (h.fits pObj obj hobj) (ha obj hobj) own
    have hnew := h.update hk (some obj) ((obj.driver.stop s.timers pObj own).1 == retOk)
      (by rintro _ ⟨⟩; exact hfits) fun _ => hnone
    rwa [← hobj, Function.update_eq_self] at hnew
  | setInterval pObj nInterval =>
    obtain ⟨obj, hobj, hs⟩ := Option.bind_eq_some_iff.mp hs
    cases hs
    have hnew := h.update (.refl h.tracked pObj _) (some { obj with nInterval }) (s.stopped pObj)
      (by rintro _ ⟨⟩; exact h.fits pObj obj hobj) fun hidle => h.idle pObj (hidle.imp_right nofun)
    rwa [Function.update_eq_self (f := s.stopped)] at hnew
  | destroy pObj own =>
    obtain ⟨obj, hobj, hs⟩ := Option.bind_eq_some_iff.mp hs
    cases hs
    obtain ⟨hk, hfits, hnone⟩ := TimedDriver.stop_keeps h.tracked (h.fits pObj obj hobj) (ha obj hobj) own
    obtain ⟨hk', hnone'⟩ := TimedDriver.detach_keeps hk.tracked hnone hfits
    exact h.update ((hk.trans hk').mono (Set.subset_univ _)) none false nofun fun _ => hnone'
  | fire xTimerID own enabled xConvert =>
    obtain ⟨⟨pObj, slot⟩, hpend, hs⟩ := Option.bind_eq_some_iff.mp hs
    obtain ⟨obj, hobj, hs⟩ := Option.bind_eq_some_iff.mp hs
    have hf := h.fits pObj obj hobj
    have hp : s.timers.Pends pObj slot := by
      rw [Pends, (h.tracked _ _ _ hpend).2]
      exact hpend
    cases slot with
    | hRepeatTimer =>
      obtain ⟨t, ht, hs⟩ := Option.bind_eq_some_iff.mp hs
      cases hs
      obtain ⟨hk, hfits⟩ := TimedDriver.restart_keeps h.tracked hf hp (ha _ hpend rfl obj hobj) ht
      exact h.fire hobj hp hk hfits
    | hConvertTimer =>
      cases hs
      obtain ⟨hk, hfits⟩ := TimedDriver.done_keeps h.tracked hf hpend
      exact h.fire hobj hp hk hfits

/-- In every run whose steps are allowed no timer outlives its object, and no stray handle is
cancelled. -/
theorem noneOutlives_of_allowed {acts : List (TimerAction ο)} {u : TimerSystem ο}
    (h : ∀ v a, Takes step start acts v a → v.Allowed a) (hu : Visits step start acts u) :
    u.NoneOutlives :=
  (inv_of_takes inv_start (fun _ _ _ hi ha hs => inv_step hi ha hs) h hu).noneOutlives

/-- A temperature sensor that converts, starts again and is stopped, a sensor unit that is stopped in
its first measurement, and an interface object that runs at once and is destroyed. -/
def inTurn : List (TimerAction Nat) :=
  [.create 0 .ds18b20 1000 none, .run 0 true retOk 1 2, .create 1 (.gus ⟨false, true⟩) 1000 none,
    .run 1 true retOk 3 4, .fire 2 retOk true 0, .fire 1 retOk true 2, .setInterval 0 500,
    .stop 1 retOk, .create 2 .ifce 1000 (some 3), .fire 3 retOk true 0, .stop 0 retOk,
    .destroy 2 retOk]

theorem inTurn_noneOutlives : ∃ t, exec step inTurn start = some t ∧
    ∀ u, Visits step start inTurn u → u.NoneOutlives :=
  ⟨_, rfl, fun _ hu => noneOutlives_of_allowed (takes_of_along (by decide)) hu⟩

/-- A temperature sensor that is started twice keeps a timer behind its stop, and a sensor unit that is
stopped behind its first measurement cancels the timer that fired. -/
theorem startedTwice_outlives :
    (∃ u, Visits step start [.create 0 .ds18b20 1000 none, .run 0 true retOk 1 2,
      .run 0 true retOk 3 4, .stop 0 retOk] u ∧ ¬ (u : TimerSystem Nat).NoneOutlives) ∧
    ∃ u, Visits step start [.create 0 (.gus ⟨false, true⟩) 1000 none, .run 0 true retOk 1 2,
      .fire 2 retOk true 0, .stop 0 retOk] u ∧ ¬ (u : TimerSystem Nat).NoneOutlives := by
  constructor
  · exact ⟨_, ⟨_, List.prefix_rfl, rfl⟩, fun h => h.stopped 0 rfl 1 .hRepeatTimer rfl⟩
  · exact ⟨_, ⟨_, List.prefix_rfl, rfl⟩, fun h => nomatch h.stray⟩

end TimerSystem

end EdgeNode.Obj
