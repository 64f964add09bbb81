import EdgeNode.Config.Slots

/-! Which of two readable banks of a pool is the later one. -/

namespace EdgeNode.Config

open TwoSlot Runs

section Recency

variable (crc : ∀ k, UInt32 → UInt32 → Body k → UInt32) (product : Product)

/-- Where the boot looks for a pool and can read both banks, it loads the one written later. -/
def LoadsLater (s : Device) : Prop :=
  ∀ k, k = .main ∨ (loadPool crc product s.banks .main).nID ≠ 0 →
    valid crc (s.banks k false) = true → valid crc (s.banks k true) = true →
    ∃ b, (loadPools crc product s.banks).page k = s.banks k b ∧ s.stamp k (!b) < s.stamp k b

/-- The first write since identifier 0 is over and the bank of the second one can still be read. -/
def Overtaken (s : Device) (k : Kind) : Prop :=
  (s.ram.page k).nID = 1 ∧ valid crc (s.banks k false) = true ∧ valid crc (s.banks k true) = true

instance (s : Device) (k : Kind) : Decidable (Overtaken crc s k) := inferInstanceAs (Decidable (_ ∧ _))

/-- The steps that keep the order: the devices open, and the power does not go between the first two
writes since identifier 0. -/
def InOrder (s : Device) : Action → Prop
  | .write .noDevice => False
  | .powerLoss none => ∀ k, ¬ Overtaken crc s k
  | _ => True

instance (s : Device) : DecidablePred (InOrder crc s)
  | .write .noDevice => .isFalse id
  | .powerLoss none => decidable_of_iff (∀ k ∈ kinds, ¬ Overtaken crc s k)
      ⟨fun h k => h k (mem_kinds k), fun h k _ => h k⟩
  | .write .done | .write (.short _) | .powerLoss (some _) | .set _ | .save _ | .autoSave | .clear
  | .clearObject | .boot => .isTrue trivial

inductive Paired : List (Kind × Bool) → Prop
  | nil : Paired []
  | cons (k : Kind) {rest : List (Kind × Bool)} (h : Paired rest) :
      Paired ((k, false) :: (k, true) :: rest)

structure OrderInv (s : Device) : Prop extends Sound crc s where
  before : ∀ k, (slots crc s k).Before s.clock
  plan : Paired s.plan ∨
    ∃ k rest, s.plan = (k, true) :: rest ∧ Paired rest ∧ 0 < (slots crc s k).last
  ahead : s.on = true → ∀ k, (slots crc s k).Ahead ∨ (slots crc s k).last = 0
  ordered : ∀ k, (slots crc s k).Ordered ∨
    (slots crc s k).last = 1 ∧ ∃ rest, s.plan = (k, true) :: rest

variable {crc} {product}

theorem paired_savePlan (force : Bool) (r : Ram) : Paired (savePlan force r) := by
  have hpart : ∀ ks : List Kind, Paired (ks.flatMap fun k =>
      if force || r.modified k then [(k, false), (k, true)] else []) := by
    intro ks
    induction ks with
    | nil => exact .nil
    | cons k ks ih =>
      rw [List.flatMap_cons]
      split
      · exact .cons k ih
      · exact ih
  exact hpart kinds

theorem loadsLater_of_ordered {s : Device} (hm : ∀ k, (slots crc s k).Marked)
    (ho : ∀ k, (slots crc s k).Ordered) : LoadsLater crc product s := by
  intro k hk hf ht
  have hslot : ∀ b, (slots crc s k).slot b = some ⟨(s.banks k b).nID.toNat, s.stamp k b⟩ := by
    intro b
    cases b with
    | false => simp [slots, hf]
    | true => simp [slots, ht]
  have hpage : (loadPools crc product s.banks).page k = loadPool crc product s.banks k := if_pos hk
  have hvalid : ∀ b, valid crc (s.banks k b) = true := by
    intro b
    cases b
    · exact hf
    · exact ht
  obtain ⟨b, hlt⟩ : ∃ b, (s.banks k (!b)).nID.toNat < (s.banks k b).nID.toNat := by
    rcases Nat.lt_trichotomy (s.banks k false).nID.toNat (s.banks k true).nID.toNat with
      hlt | heq | hlt
    · exact ⟨true, hlt⟩
    · have hp := (hm k false _ (hslot false)).1
      rw [heq, (hm k true _ (hslot true)).1] at hp
      cases hp
    · exact ⟨false, hlt⟩
  refine ⟨b, ?_, ?_⟩
  · rw [hpage, loadPool_of_lt (hvalid b) (UInt32.lt_iff_toNat_lt.mpr hlt)]
  · have hnext : (slots crc s k).slot (!!b) = some ⟨(s.banks k b).nID.toNat, s.stamp k b⟩ := by
      rw [Bool.not_not, hslot]
    exact ho k (!b) _ _ (hslot _) hnext hlt

theorem orderInv_start {s : Device} (h : Start crc s) : OrderInv crc s := by
  have hnone : ∀ k b, (slots crc s k).slot b = none := by
    intro k b
    simp [slots, h.blank k b]
  refine ⟨sound_start h, fun k b e he => ?_, .inl ?_, fun hon => ?_,
    fun k => .inl (Store.ordered_of_none (hnone k false))⟩
  · rw [hnone] at he
    cases he
  · rw [h.plan]
    exact .nil
  · rw [h.off] at hon
    cases hon

theorem OrderInv.ordered_of_plan {s : Device} (h : OrderInv crc s) (hp : s.plan = []) (k : Kind) :
    (slots crc s k).Ordered := by
  rcases h.ordered k with ho | ⟨-, rest, hrest⟩
  · exact ho
  · rw [hp] at hrest
    cases hrest

theorem OrderInv.ordered_of_ne {s : Device} (h : OrderInv crc s) {j k : Kind} {second : Bool}
    {rest : List (Kind × Bool)} (hp : s.plan = (k, second) :: rest) (hj : j ≠ k) :
    (slots crc s j).Ordered := by
  rcases h.ordered j with ho | ⟨-, rest', hrest⟩
  · exact ho
  · rw [hp] at hrest
    cases hrest
    exact absurd rfl hj

theorem OrderInv.of_slot {s t : Device} (h : OrderInv crc s) (ht : Sound crc t) (hp : s.plan = [])
    (hslot : ∀ k, (slots crc t k).slot = (slots crc s k).slot) (hclock : t.clock = s.clock)
    (hplan : Paired t.plan)
    (hahead : t.on = true → ∀ k, (slots crc t k).Ahead ∨ (slots crc t k).last = 0) :
    OrderInv crc t := by
  refine ⟨ht, fun k => ?_, .inl hplan, hahead, fun k => .inl ?_⟩
  · rw [Store.Before, hslot, hclock]
    exact h.before k
  · rw [Store.Ordered, hslot]
    exact h.ordered_of_plan hp k

theorem OrderInv.rest {s : Device} {k : Kind} {second : Bool} {rest : List (Kind × Bool)}
    (h : OrderInv crc s) (hp : s.plan = (k, second) :: rest) :
    (second = false ∧ ∃ rest', rest = (k, true) :: rest' ∧ Paired rest') ∨
      second = true ∧ Paired rest ∧ 0 < (slots crc s k).last := by
  rcases h.plan with hpair | ⟨j, rest', hrest, hpair, hlast⟩
  · rw [hp] at hpair
    cases hpair with
    | cons k hrest => exact .inl ⟨rfl, _, rfl, hrest⟩
  · rw [hp] at hrest
    cases hrest
    exact .inr ⟨rfl, hpair, hlast⟩

theorem orderInv_writeDone {s : Device} {k : Kind} {second : Bool} {rest : List (Kind × Bool)}
    (h : OrderInv crc s) (hp : s.plan = (k, second) :: rest)
    (hroom : (s.ram.page k).nID.toNat < maxInt32)
    (ht : Sound crc (writeDone crc k second rest s)) :
    OrderInv crc (writeDone crc k second rest s) := by
  have hon := h.on_of_plan hp
  have hself : slots crc (writeDone crc k second rest s) k = (slots crc s k).write s.clock :=
    slots_writeDone (h.tag hon k) hroom
  have hother : ∀ j, j ≠ k → slots crc (writeDone crc k second rest s) j = slots crc s j :=
    fun j hj => slots_writeDone_other hj
  have hplan : (writeDone crc k second rest s).plan = rest := rfl
  refine ⟨ht, fun j => ?_, ?_, fun _ j => ?_, fun j => ?_⟩
  · by_cases hj : j = k
    · subst hj
      rw [hself]
      exact (h.before j).write
    · rw [hother j hj]
      exact fun b e he => Nat.lt_succ_of_lt (h.before j b e he)
  · rcases h.rest hp with ⟨-, rest', rfl, hpair⟩ | ⟨-, hpair, -⟩
    · refine .inr ⟨k, rest', hplan, hpair, ?_⟩
      rw [hself]
      exact Nat.succ_pos _
    · exact .inl hpair
  · by_cases hj : j = k
    · subst hj
      rw [hself]
      exact .inl (Store.ahead_write _)
    · rw [hother j hj]
      exact h.ahead hon j
  · by_cases hj : j = k
    · subst hj
      rw [hself]
      rcases h.ahead hon j with ha | hz
      · exact .inl (ha.ordered_write (h.before j))
      · -- the first write since identifier 0, so its second one is next
        rcases h.rest hp with ⟨-, rest', rfl, -⟩ | ⟨-, -, hpos⟩
        · exact .inr ⟨by rw [Store.write_last, hz], rest', hplan⟩
        · omega
    · rw [hother j hj]
      exact .inl (h.ordered_of_ne hp hj)

theorem OrderInv.ordered_torn {s t : Device} {k : Kind} {second : Bool} {rest : List (Kind × Bool)}
    (h : OrderInv crc s) (hp : s.plan = (k, second) :: rest)
    (hself : (slots crc t k).slot = (slots crc s k).tear.slot)
    (hother : ∀ j, j ≠ k → slots crc t j = slots crc s j) (hclock : t.clock = s.clock) (j : Kind) :
    (slots crc t j).Before t.clock ∧ (slots crc t j).Ordered := by
  rw [hclock]
  by_cases hj : j = k
  · subst hj
    rw [Store.Before, Store.Ordered, hself]
    exact ⟨(h.before j).tear, Store.ordered_tear⟩
  · rw [hother j hj]
    exact ⟨h.before j, h.ordered_of_ne hp hj⟩

theorem orderInv_writeShort {s : Device} {k : Kind} {second : Bool} {rest : List (Kind × Bool)}
    {torn : Page (Body k)} (h : OrderInv crc s) (hp : s.plan = (k, second) :: rest)
    (hr : Rejected crc torn) (hroom : (s.ram.page k).nID.toNat < maxInt32)
    (ht : Sound crc (writeShort crc k torn s)) : OrderInv crc (writeShort crc k torn s) := by
  have hself := slots_writeShort hr hroom
  have hother : ∀ j, j ≠ k → slots crc (writeShort crc k torn s) j = slots crc s j :=
    fun j hj => slots_writeShort_other hj
  have htorn := h.ordered_torn hp (by rw [hself]) hother rfl
  refine ⟨ht, fun j => (htorn j).1, .inl .nil, fun _ j => ?_, fun j => .inl (htorn j).2⟩
  by_cases hj : j = k
  · subst hj
    rw [hself]
    exact .inl Store.ahead_tear
  · rw [hother j hj]
    exact h.ahead (h.on_of_plan hp) j

theorem orderInv_boot {s : Device} (h : OrderInv crc s) (hoff : s.on = false)
    (ht : Sound crc (boot crc product s)) : OrderInv crc (boot crc product s) := by
  refine h.of_slot ht (h.off hoff) (boot_slot s) rfl (by rw [boot_plan]; exact paired_savePlan _ _)
    fun _ k => ?_
  rw [slots_renumber (boot_banks s) (boot_stamp s), boot_ram, initRam_nID]
  split
  · exact .inl Store.ahead_renumber
  · exact .inr rfl

theorem orderInv_step {s t : Device} {a : Action} (h : OrderInv crc s) (hroom : Room s a)
    (hg : InOrder crc s a) (hstep : step crc product s a = some t) : OrderInv crc t := by
  have ht := sound_step h.toSound hroom hstep
  rcases step_cases hstep with ⟨hon, hp, r, p, hkeep, hplan, rfl⟩ | ⟨hon, hp, hclear⟩ |
    ⟨k, second, rest, hp, hwrite⟩ | ⟨hon, rfl, rfl⟩ | ⟨hoff, rfl, rfl⟩
  · refine h.of_slot ht hp (fun _ => rfl) rfl ?_ fun _ k => ?_
    · rcases hplan with rfl | ⟨force, rfl⟩
      · exact .nil
      · exact paired_savePlan force r
    · simp only [slots, hkeep.nID]
      exact h.ahead hon k
  · rcases hclear with ⟨rfl, rfl⟩ | ⟨rfl, rfl⟩
    · refine h.of_slot ht hp (fun _ => rfl) rfl (paired_savePlan true _) fun _ k => .inr ?_
      exact congrArg UInt32.toNat (clear_nID product s.ram k)
    · refine h.of_slot ht hp (fun _ => rfl) rfl (paired_savePlan true _) fun _ k => ?_
      have hid := clearObject_nID product s.ram k
      by_cases hk : k = .main
      · rw [if_pos hk] at hid
        have hsame : slots crc (startClearObject crc product s) k = slots crc s k := by
          rw [slots_renumber (s := s) rfl rfl]
          exact congrArg (fun n => (slots crc s k).renumber n.toNat) hid
        rw [hsame]
        exact h.ahead hon k
      · rw [if_neg hk] at hid
        exact .inr (congrArg UInt32.toNat hid)
  · have hw : (k, second) ∈ s.plan.head? := by
      rw [hp]
      rfl
    rcases hwrite with ⟨rfl, rfl⟩ | ⟨rfl, rfl⟩ | ⟨torn, hr, ⟨rfl, rfl⟩ | ⟨rfl, rfl⟩⟩
    · exact orderInv_writeDone h hp (hroom _ hw) ht
    · exact hg.elim
    · exact orderInv_writeShort h hp hr (hroom _ hw) ht
    · have htorn := h.ordered_torn hp (slots_writeCut hr (hroom _ hw))
        (fun j hj => slots_writeCut_other hj) rfl
      exact ⟨ht, fun j => (htorn j).1, .inl .nil, fun hf => absurd hf Bool.false_ne_true,
        fun j => .inl (htorn j).2⟩
  · refine ⟨ht, h.before, .inl .nil, fun hf => absurd hf Bool.false_ne_true, fun k => .inl ?_⟩
    rcases h.ordered k with ho | ⟨hlast, -⟩
    · exact ho
    · -- one of the two banks cannot be read
      have hid : (s.ram.page k).nID = 1 := UInt32.toNat_inj.mp hlast
      have hnot := hg k
      cases hf : valid crc (s.banks k false) with
      | false => exact Store.ordered_of_none (b := false) (by simp [slots, hf])
      | true =>
        cases hv : valid crc (s.banks k true) with
        | false => exact Store.ordered_of_none (b := true) (by simp [slots, hv])
        | true => exact absurd ⟨hid, hf, hv⟩ hnot
  · exact orderInv_boot h hoff ht

/-- Along a run whose steps keep the order, every boot loads the later one of two banks. -/
theorem loadsLater_of_inOrder {s u : Device} {acts : List Action} (hs : Start crc s)
    (h : ∀ v a, Takes (step crc product) s acts v a → Room v a ∧ InOrder crc v a)
    (hv : Visits (step crc product) s acts u) (hoff : u.on = false) : LoadsLater crc product u := by
  have hi := inv_of_takes (orderInv_start hs)
    (fun _ _ _ hi hg => orderInv_step hi hg.1 hg.2) h hv
  exact loadsLater_of_ordered hi.marked (hi.ordered_of_plan (hi.off hoff))

end Recency

section Runs

/-- The wiped settings come back: bank 0 still has them under a larger identifier. -/
theorem wiped_pool_returns :
    ∃ u, exec (step checksum bareProduct) (firstBoot ++ [.set (.netSetIP 5), .save false,
        .write .done, .write .done, .clear, .write .done, .powerLoss none]) blankDevice = some u ∧
      u.on = false ∧ ¬ LoadsLater checksum bareProduct u := by
  refine ⟨_, rfl, rfl, fun h => ?_⟩
  obtain ⟨b, hb, hlt⟩ := h .main (.inl rfl) rfl rfl
  cases b with
  | false =>
    revert hlt
    decide
  | true =>
    have hip := congrArg (fun p : Page (Body .main) => p.nID) hb
    revert hip
    decide

theorem whole_clear_loads_later :
    ∃ u, exec (step checksum bareProduct) (firstBoot ++ [.clear, .write .done, .write .done,
        .powerLoss none]) blankDevice = some u ∧ u.on = false ∧
      valid checksum (u.banks .main false) = true ∧ valid checksum (u.banks .main true) = true ∧
      LoadsLater checksum bareProduct u := by
  obtain ⟨u, hu, hoff, hf, ht⟩ : ∃ u, exec (step checksum bareProduct) (firstBoot ++ [.clear,
      .write .done, .write .done, .powerLoss none]) blankDevice = some u ∧ u.on = false ∧
      valid checksum (u.banks .main false) = true ∧
      valid checksum (u.banks .main true) = true := ⟨_, rfl, rfl, rfl, rfl⟩
  exact ⟨u, hu, hoff, hf, ht, loadsLater_of_inOrder start_blankDevice
    (takes_of_along (by decide)) ⟨_, List.prefix_rfl, hu⟩ hoff⟩

end Runs

end EdgeNode.Config
