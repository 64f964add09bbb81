import EdgeNode.Config.Saves

/-! What a reboot gives back after changes and a tick of the autosave timer. -/

namespace EdgeNode.Config

open Runs

section AutoSave

variable (crc : ∀ k, UInt32 → UInt32 → Body k → UInt32) (product : Product)

def setAll (xs : List Setter) (s : Device) : Device :=
  { s with ram := xs.foldl (fun r x => x.apply product r) s.ram }

/-- `FTE_CFG_autoSave` with its writes. -/
def autoSave (s : Device) : Device := finish crc { s with plan := autoSavePlan s.ram }

/-- What the tick keeps of a pool that was `booted` and then `changed`: it is saved when it and the
first pool are marked, and must otherwise be what the boot has left. -/
def Kept (booted changed : Device) (k : Kind) : Prop :=
  if changed.ram.modified .main = true ∧ changed.ram.modified k = true then
    (changed.ram.page k).nID.toNat + 2 ≤ maxInt32
  else changed.ram.page k = booted.ram.page k ∧ ¬ Stale crc booted k

theorem held_autoSave (s : Device) (k : Kind) : held (autoSave crc s) k =
    if s.ram.modified .main = true ∧ s.ram.modified k = true then (held s k).save crc
    else held s k := by
  unfold autoSave autoSavePlan isChanged
  cases hm : s.ram.modified .main with
  | true =>
    rw [if_pos rfl, held_finish rfl]
    simp only [Bool.false_or, true_and]
    rfl
  | false =>
    simp only [Bool.false_eq_true, if_false, false_and]
    rfl

theorem autoSave_saved {s : Device} {k : Kind}
    (h : s.ram.modified .main = true ∧ s.ram.modified k = true) :
    (autoSave crc s).ram.page k = ((held s k).save crc).page ∧
      (autoSave crc s).banks k = ((held s k).save crc).bank := by
  have hheld := held_autoSave crc s k
  rw [if_pos h] at hheld
  rw [← held_page, ← held_bank, hheld]
  exact ⟨rfl, rfl⟩

theorem autoSave_unsaved {s : Device} {k : Kind}
    (h : ¬ (s.ram.modified .main = true ∧ s.ram.modified k = true)) :
    (autoSave crc s).ram.page k = s.ram.page k ∧ (autoSave crc s).banks k = s.banks k := by
  have hheld := held_autoSave crc s k
  rw [if_neg h] at hheld
  rw [← held_page, ← held_bank, hheld]
  exact ⟨rfl, rfl⟩

theorem loadPool_autoSave {s : Device} {k : Kind}
    (h : s.ram.modified .main = true ∧ s.ram.modified k = true)
    (ht : (s.ram.page k).ulTag = poolVersion) (hroom : (s.ram.page k).nID.toNat + 2 ≤ maxInt32) :
    loadPool crc product (autoSave crc s).banks k = (autoSave crc s).ram.page k ∧
      ((autoSave crc s).ram.page k).nID ≠ 0 := by
  obtain ⟨hpage, hbank⟩ := autoSave_saved crc h
  have hid := save_nID crc (h := held s k) (Nat.le_of_add_right_le hroom)
  rw [hpage]
  refine ⟨loadPool_save ht hroom hbank, fun hz => ?_⟩
  rw [hz, UInt32.toNat_zero] at hid
  omega

theorem loadPool_unsaved {s : Device} {k : Kind}
    (h : ¬ (s.ram.modified .main = true ∧ s.ram.modified k = true)) :
    loadPool crc product (autoSave crc s).banks k = loadPool crc product s.banks k :=
  loadPool_congr (autoSave_unsaved crc h).2

theorem startUp_of_found {s : Device} {k : Kind}
    (h : ((loadPools crc product s.banks).page k).nID ≠ 0) :
    (startUp crc product s).ram.page k = (loadPools crc product s.banks).page k := by
  have hkept := initRam_of_found h
  rw [startUp_of_unmarked crc product (hkept.modified.trans rfl), hkept.page]

theorem reboot_saved {s : Device} {k : Kind}
    (hfound : (loadPool crc product (autoSave crc s).banks .main).nID ≠ 0)
    (h : s.ram.modified .main = true ∧ s.ram.modified k = true)
    (ht : (s.ram.page k).ulTag = poolVersion) (hroom : (s.ram.page k).nID.toNat + 2 ≤ maxInt32) :
    (startUp crc product (autoSave crc s)).ram.page k = (autoSave crc s).ram.page k := by
  obtain ⟨hload, hne⟩ := loadPool_autoSave crc product h ht hroom
  have hpage := loadPools_page hfound k
  rw [hload] at hpage
  rw [startUp_of_found crc product (by rw [hpage]; exact hne), hpage]

theorem setAll_banks (s : Device) (xs : List Setter) : (setAll product xs s).banks = s.banks := rfl

theorem setAll_keeps (s : Device) (xs : List Setter) : Keeps s.ram (setAll product xs s).ram :=
  keeps_setters product xs s.ram

theorem setAll_tag (s : Device) (xs : List Setter) (k : Kind) :
    ((setAll product xs (startUp crc product s)).ram.page k).ulTag = poolVersion :=
  (setAll_keeps product _ xs).tag k (startUp_tag crc product s k)

theorem found_autoSave (s : Device) (xs : List Setter)
    (hroom : (setAll product xs (startUp crc product s)).ram.modified .main = true →
      ((setAll product xs (startUp crc product s)).ram.page .main).nID.toNat + 2 ≤ maxInt32) :
    (loadPool crc product
      (autoSave crc (setAll product xs (startUp crc product s))).banks .main).nID ≠ 0 := by
  have htag := setAll_tag crc product s xs .main
  have hfound := startUp_found crc product s
  rw [← setAll_banks product _ xs] at hfound
  generalize setAll product xs (startUp crc product s) = c at hroom htag hfound ⊢
  by_cases hm : c.ram.modified .main = true
  · obtain ⟨hload, hne⟩ := loadPool_autoSave crc product ⟨hm, hm⟩ htag (hroom hm)
    rw [hload]
    exact hne
  · rw [loadPool_unsaved crc product fun h => hm h.1]
    exact hfound

theorem reboot_unsaved {s c : Device} {k : Kind}
    (hbanks : c.banks = (startUp crc product s).banks)
    (hfound : (loadPool crc product (autoSave crc c).banks .main).nID ≠ 0)
    (h : ¬ (c.ram.modified .main = true ∧ c.ram.modified k = true)) :
    (Stale crc (startUp crc product s) k →
      ((startUp crc product (autoSave crc c)).ram.page k).nID ≠ 0) ∧
    (¬ Stale crc (startUp crc product s) k →
      (startUp crc product (autoSave crc c)).ram.page k = (startUp crc product s).ram.page k) := by
  have hload : (loadPools crc product (autoSave crc c).banks).page k =
      (loadPools crc product (startUp crc product s).banks).page k := by
    rw [loadPools_page hfound, loadPools_page (startUp_found crc product s),
      loadPool_unsaved crc product h, hbanks]
  constructor
  · intro hstale
    have hne : ((loadPools crc product (autoSave crc c).banks).page k).nID ≠ 0 := by
      rw [hload, loadPools_page (startUp_found crc product s)]
      exact loadPool_ne_zero.mpr hstale.2
    rw [startUp_of_found crc product hne]
    exact hne
  · intro hstale
    have hreload := agree_startUp crc product hstale
    have hagree := hreload.trans (agree_initRam hload)
    have hunmarked := hagree.modified.trans (startUp_modified crc product s k)
    rw [startUp_of_unmarked crc product hunmarked, hagree.page]

/-- After any changes, a tick and a reboot, all four pools are what they were in RAM exactly when the
tick keeps each of them. -/
theorem reboot_eq_iff (s : Device) (xs : List Setter) :
    (∀ k, (startUp crc product (autoSave crc (setAll product xs (startUp crc product s)))).ram.page k =
        (autoSave crc (setAll product xs (startUp crc product s))).ram.page k) ↔
      ∀ k, Kept crc (startUp crc product s) (setAll product xs (startUp crc product s)) k := by
  have hbanks := setAll_banks product (startUp crc product s) xs
  have htag := setAll_tag crc product s xs
  have hfound := found_autoSave crc product s xs
  have hid := (setAll_keeps product (startUp crc product s) xs).nID
  have hle := startUp_nID_le crc product s
  generalize setAll product xs (startUp crc product s) = c at hbanks htag hfound hid ⊢
  constructor
  · intro h
    have hroom : ∀ k, c.ram.modified .main = true ∧ c.ram.modified k = true →
        (c.ram.page k).nID.toNat + 2 ≤ maxInt32 := by
      intro k hk
      have hsaved := save_nID crc (h := held c k) (by rw [held_page, hid]; exact hle k)
      have hlast := startUp_nID_le crc product (autoSave crc c) k
      rw [h k, (autoSave_saved crc hk).1, hsaved] at hlast
      exact hlast
    have hmain := hfound fun hm => hroom .main ⟨hm, hm⟩
    intro k
    unfold Kept
    split
    · rename_i hk
      exact hroom k hk
    · rename_i hk
      obtain ⟨hold, hback⟩ := reboot_unsaved crc product hbanks hmain hk
      rw [h k, (autoSave_unsaved crc hk).1] at hold hback
      have hstale : ¬ Stale crc (startUp crc product s) k := by
        intro hs
        have hne := hold hs
        rw [hid] at hne
        exact hne hs.1
      exact ⟨hback hstale, hstale⟩
  · intro h k
    have hmain := hfound fun hm => by
      have hk := h .main
      rw [Kept, if_pos ⟨hm, hm⟩] at hk
      exact hk
    have hk := h k
    unfold Kept at hk
    split at hk
    · rename_i hsaved
      exact reboot_saved crc product hmain hsaved (htag k) hk
    · rename_i hsaved
      have hback := (reboot_unsaved crc product hbanks hmain hsaved).2 hk.2
      rw [hback, (autoSave_unsaved crc hsaved).1, hk.1]

/-- Setters that mark what they change leave an unmarked pool as it was. -/
theorem page_of_unmarked {xs : List Setter} (hx : ∀ x ∈ xs, x.marks = true) {r : Ram} {k : Kind}
    (h : (xs.foldl (fun r x => x.apply product r) r).modified k = false) :
    (xs.foldl (fun r x => x.apply product r) r).page k = r.page k := by
  induction xs generalizing r with
  | nil => rfl
  | cons x xs ih =>
    have hrest := ih (fun y hy => hx y (List.mem_cons_of_mem x hy)) h
    have hkept : (x.apply product r).modified k = false := by
      by_contra hn
      have hm := (keeps_setters product xs (x.apply product r)).modified k (by simpa using hn)
      rw [List.foldl_cons, hm] at h
      cases h
    rw [List.foldl_cons, hrest]
    dsimp only
    rcases x.apply_cases product r with hr | ⟨j, f, hr⟩ | ⟨hmark, -⟩
    · rw [hr]
    · rw [hr] at hkept ⊢
      by_cases hj : k = j
      · subst hj
        simp [Ram.modify] at hkept
      · exact ((local_modify j f).frame r k hj).page
    · rw [hx x List.mem_cons_self] at hmark
      cases hmark

/-- Once the first pool is marked too, the tick keeps what such setters have changed. -/
theorem kept_of_marks {b : Device} {xs : List Setter} (hx : ∀ x ∈ xs, x.marks = true)
    (hmain : (setAll product xs b).ram.modified .main = true)
    (hroom : ∀ k, (b.ram.page k).nID.toNat + 2 ≤ maxInt32) (hstale : ∀ k, ¬ Stale crc b k)
    (k : Kind) : Kept crc b (setAll product xs b) k := by
  unfold Kept
  split
  · rw [(setAll_keeps product b xs).nID]
    exact hroom k
  · rename_i hk
    refine ⟨page_of_unmarked product hx ?_, hstale k⟩
    exact Bool.eq_false_iff.mpr fun hm => hk ⟨hmain, hm⟩

theorem exec_setAll (xs : List Setter) {s : Device} (hon : s.on = true) (hp : s.plan = []) :
    exec (step crc product) (xs.map .set) s = some (setAll product xs s) := by
  induction xs generalizing s with
  | nil => rfl
  | cons x xs ih =>
    have hstep : step crc product s (.set x) = some { s with ram := x.apply product s.ram } := by
      simp [step, hon, hp]
    rw [List.map_cons, exec_cons, hstep]
    exact ih hon hp

theorem exec_startUp {s : Device} (hoff : s.on = false) :
    exec (step crc product) (.boot :: List.replicate (boot crc product s).plan.length (.write .done))
      s = some (startUp crc product s) := by
  have hstep : step crc product s .boot = some (boot crc product s) := by simp [step, hoff]
  rw [exec_cons, hstep, Option.bind_some, startUp, finish]
  exact exec_finishPlan crc product (boot crc product s).plan (boot crc product s) rfl

theorem exec_tick {s : Device} (hon : s.on = true) (hp : s.plan = []) :
    exec (step crc product) (.autoSave :: List.replicate (autoSavePlan s.ram).length (.write .done))
      s = some (autoSave crc s) := by
  have hstep : step crc product s .autoSave = some { s with plan := autoSavePlan s.ram } := by
    simp [step, hon, hp]
  rw [exec_cons, hstep, Option.bind_some, autoSave, finish]
  exact exec_finishPlan crc product (autoSavePlan s.ram) { s with plan := autoSavePlan s.ram } rfl

theorem exec_autoSave (xs : List Setter) {s : Device} (hoff : s.on = false) :
    ∃ n m, exec (step crc product) (.boot :: List.replicate n (.write .done) ++ (xs.map .set ++
        .autoSave :: List.replicate m (.write .done))) s =
      some (autoSave crc (setAll product xs (startUp crc product s))) := by
  obtain ⟨hp, hon⟩ := finishPlan_plan crc (boot crc product s).plan (boot crc product s) rfl
  have hrun := exec_startUp crc product hoff
  rw [startUp, finish] at hrun ⊢
  generalize finishPlan crc (boot crc product s).plan (boot crc product s) = t at hp hon hrun
  have hchanged : (setAll product xs t).on = true := hon
  refine ⟨(boot crc product s).plan.length, (autoSavePlan (setAll product xs t).ram).length, ?_⟩
  rw [exec_append, hrun, Option.bind_some, exec_append, exec_setAll crc product xs hon hp,
    Option.bind_some, exec_tick crc product hchanged hp]

end AutoSave

section Runs

/-- An event is created, the tick sees no change in the first pool, and the reboot is without it. -/
theorem created_event_lost : ¬ ∀ k,
    (startUp checksum bareProduct (autoSave checksum (setAll bareProduct [.eventCreate ⟨5, []⟩]
      (startUp checksum bareProduct blankDevice)))).ram.page k =
    (autoSave checksum (setAll bareProduct [.eventCreate ⟨5, []⟩]
      (startUp checksum bareProduct blankDevice))).ram.page k := by
  intro h
  have hcount := congrArg (fun p : Page (Body .event) => p.body.uiEventCount) (h .event)
  revert hcount
  decide

end Runs

end EdgeNode.Config
