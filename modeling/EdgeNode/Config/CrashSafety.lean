import EdgeNode.Config.Slots

/-! What keeps one readable bank of every pool through failing writes and power losses. -/

namespace EdgeNode.Config

open TwoSlot Runs

section CrashSafety

variable (crc : ∀ k, UInt32 → UInt32 → Body k → UInt32) (product : Product)

/-- Every pool of which a save has completed can be read from one of its banks. -/
def Readable (s : Device) : Prop :=
  ∀ k, s.saved k = true → ∃ b, valid crc (s.banks k b) = true

/-- A write of the pool may be torn: no bank of it can be read yet, or it is not at risk. -/
def MayTear (s : Device) (k : Kind) : Prop :=
  (∃ b, valid crc (s.banks k b) = true) → s.atRisk k = false

/-- The steps that spare the last readable bank: the devices open, and no write of a pool at risk is
torn. -/
def Spares (s : Device) : Action → Prop
  | .write .noDevice => False
  | .write (.short _) | .powerLoss (some _) => ∀ w ∈ s.plan.head?, MayTear crc s w.1
  | _ => True

instance (s : Device) (k : Kind) : Decidable (MayTear crc s k) :=
  inferInstanceAs (Decidable ((∃ b, valid crc (s.banks k b) = true) → s.atRisk k = false))

instance (s : Device) : DecidablePred (Spares crc s)
  | .write .noDevice => .isFalse id
  | .write (.short _) | .powerLoss (some _) =>
    inferInstanceAs (Decidable (∀ w ∈ s.plan.head?, MayTear crc s w.1))
  | .write .done | .powerLoss none | .set _ | .save _ | .autoSave | .clear | .clearObject | .boot =>
    .isTrue trivial

/-- The bank that is not written next can be read, for a pool at risk the one that is. -/
def BackedBy (s : Device) (k : Kind) : Prop :=
  if s.atRisk k then ((slots crc s k).slot (!parity (slots crc s k).last)).isSome = true
  else (slots crc s k).Backed

structure SafeInv (s : Device) : Prop extends Sound crc s where
  saved : ∀ k, s.saved k = true → (slots crc s k).Holds
  first : ∀ k, (slots crc s k).Holds → (slots crc s .main).Holds
  backed : s.on = true → ∀ k, (slots crc s k).Holds → BackedBy crc s k
  head : s.on = true → ¬ (slots crc s .main).Holds →
    s.ram.modified .main = true ∧ (s.plan = [] ∨ ∃ rest, s.plan = (.main, false) :: rest)

variable {crc} {product}

theorem SafeInv.readable {s : Device} (h : SafeInv crc s) : Readable crc s :=
  fun k hk => holds_slots.mp (h.saved k hk)

theorem safeInv_start {s : Device} (h : Start crc s) : SafeInv crc s where
  toSound := sound_start h
  saved k hk := by
    rw [h.saved k] at hk
    cases hk
  first k hk := absurd hk (not_holds_start h k)
  backed hon := by
    rw [h.off] at hon
    cases hon
  head hon := by
    rw [h.off] at hon
    cases hon

theorem BackedBy.holds {s : Device} {k : Kind} (h : BackedBy crc s k) : (slots crc s k).Holds := by
  unfold BackedBy at h
  split at h
  · exact ⟨_, h⟩
  · exact h.holds

theorem SafeInv.of_slots {s t : Device} (h : SafeInv crc s) (ht : Sound crc t) (hon : t.on = s.on)
    (hs : ∀ k, slots crc t k = slots crc s k) (hsaved : t.saved = s.saved)
    (hrisk : t.atRisk = s.atRisk)
    (hhead : t.on = true → ¬ (slots crc t .main).Holds →
      t.ram.modified .main = true ∧ (t.plan = [] ∨ ∃ rest, t.plan = (.main, false) :: rest)) :
    SafeInv crc t where
  toSound := ht
  saved k hk := by
    rw [hs]
    exact h.saved k (hsaved ▸ hk)
  first k hk := by
    rw [hs] at hk ⊢
    exact h.first k hk
  backed ht k hk := by
    rw [hs] at hk
    simp only [BackedBy, hs, hrisk]
    exact h.backed (hon ▸ ht) k hk
  head := hhead

theorem savePlan_main {force : Bool} {r : Ram} (h : (force || r.modified .main) = true) :
    ∃ rest, savePlan force r = (.main, false) :: rest := by
  simp only [savePlan, kinds, List.flatMap_cons, h, if_true]
  exact ⟨_, rfl⟩

/-- Where the first pool cannot be read, it is the one that is being written. -/
theorem SafeInv.holds_main {s : Device} {k : Kind} {second : Bool} {rest : List (Kind × Bool)}
    (h : SafeInv crc s) (hp : s.plan = (k, second) :: rest) (hk : k ≠ .main) :
    (slots crc s .main).Holds := by
  by_contra hn
  obtain ⟨-, hplan | ⟨rest', hplan⟩⟩ := h.head (h.on_of_plan hp) hn
  · rw [hp] at hplan
    cases hplan
  · rw [hp] at hplan
    cases hplan
    exact hk rfl

theorem safeInv_writeDone {s : Device} {k : Kind} {second : Bool} {rest : List (Kind × Bool)}
    (h : SafeInv crc s) (hp : s.plan = (k, second) :: rest)
    (hroom : (s.ram.page k).nID.toNat < maxInt32)
    (ht : Sound crc (writeDone crc k second rest s)) :
    SafeInv crc (writeDone crc k second rest s) := by
  have hon := h.on_of_plan hp
  have hself : slots crc (writeDone crc k second rest s) k = (slots crc s k).write s.clock :=
    slots_writeDone (h.tag hon k) hroom
  have hother : ∀ j, j ≠ k → slots crc (writeDone crc k second rest s) j = slots crc s j :=
    fun j hj => slots_writeDone_other hj
  have hmain : (slots crc (writeDone crc k second rest s) .main).Holds := by
    by_cases hk : k = .main
    · subst hk
      rw [hself]
      exact Store.holds_write _
    · rw [hother _ (Ne.symm hk)]
      exact h.holds_main hp hk
  refine ⟨ht, fun j hj => ?_, fun _ _ => hmain, fun _ j hj => ?_, fun _ hn => absurd hmain hn⟩
  · by_cases hjk : j = k
    · subst hjk
      rw [hself]
      exact Store.holds_write _
    · have hs : s.saved j = true := by
        cases second <;> simpa [writeDone, hjk] using hj
      rw [hother j hjk]
      exact h.saved j hs
  · by_cases hjk : j = k
    · subst hjk
      have hrisk : (writeDone crc j second rest s).atRisk j = false := by simp [writeDone]
      rw [BackedBy, hrisk, hself]
      exact Store.backed_write _
    · have hrisk : (writeDone crc k second rest s).atRisk j = s.atRisk j := by
        simp [writeDone, hjk]
      rw [hother j hjk] at hj
      rw [BackedBy, hrisk, hother j hjk]
      exact h.backed hon j hj

theorem SafeInv.holds_tear {s : Device} {k : Kind} (h : SafeInv crc s) (hon : s.on = true)
    (ht : MayTear crc s k) (hk : (slots crc s k).Holds) :
    ((slots crc s k).tear.slot (!parity (slots crc s k).tear.last)).isSome = true := by
  have hb := h.backed hon k hk
  rw [BackedBy, ht (holds_slots.mp hk)] at hb
  exact Store.Backed.tear hb

theorem SafeInv.holds_torn {s t : Device} {k : Kind} (h : SafeInv crc s) (hon : s.on = true)
    (ht : MayTear crc s k) (hself : (slots crc t k).slot = (slots crc s k).tear.slot)
    (hother : ∀ j, j ≠ k → slots crc t j = slots crc s j) (j : Kind) :
    (slots crc t j).Holds ↔ (slots crc s j).Holds := by
  by_cases hjk : j = k
  · subst hjk
    rw [Store.Holds, hself]
    exact ⟨Store.holds_of_tear, fun hj => ⟨_, h.holds_tear hon ht hj⟩⟩
  · rw [hother j hjk]

theorem safeInv_writeShort {s : Device} {k : Kind} {second : Bool} {rest : List (Kind × Bool)}
    {torn : Page (Body k)} (h : SafeInv crc s) (hp : s.plan = (k, second) :: rest)
    (hr : Rejected crc torn) (hroom : (s.ram.page k).nID.toNat < maxInt32) (ht : MayTear crc s k)
    (hsound : Sound crc (writeShort crc k torn s)) : SafeInv crc (writeShort crc k torn s) := by
  have hon := h.on_of_plan hp
  have hself := slots_writeShort hr hroom
  have hother : ∀ j, j ≠ k → slots crc (writeShort crc k torn s) j = slots crc s j :=
    fun j hj => slots_writeShort_other hj
  have hholds := h.holds_torn hon ht (by rw [hself]) hother
  refine ⟨hsound, fun j hj => (hholds j).mpr (h.saved j hj), fun j hj => ?_, fun _ j hj => ?_,
    fun _ hn => ⟨(h.head hon fun hk => hn ((hholds _).mpr hk)).1, .inl rfl⟩⟩
  · rw [hholds] at hj ⊢
    exact h.first j hj
  · rw [hholds] at hj
    by_cases hjk : j = k
    · subst hjk
      have hrisk : (writeShort crc j torn s).atRisk j = true := by simp [writeShort]
      rw [BackedBy, hrisk, hself]
      exact h.holds_tear hon ht hj
    · have hrisk : (writeShort crc k torn s).atRisk j = s.atRisk j := by simp [writeShort, hjk]
      rw [BackedBy, hrisk, hother j hjk]
      exact h.backed hon j hj

theorem safeInv_writeCut {s : Device} {k : Kind} {second : Bool} {rest : List (Kind × Bool)}
    {torn : Page (Body k)} (h : SafeInv crc s) (hp : s.plan = (k, second) :: rest)
    (hr : Rejected crc torn) (hroom : (s.ram.page k).nID.toNat < maxInt32) (ht : MayTear crc s k)
    (hsound : Sound crc (writeCut crc k torn s)) : SafeInv crc (writeCut crc k torn s) := by
  have hholds := h.holds_torn (h.on_of_plan hp) ht (slots_writeCut hr hroom)
    fun j hj => slots_writeCut_other hj
  refine ⟨hsound, fun j hj => (hholds j).mpr (h.saved j hj), fun j hj => ?_,
    fun hf => absurd hf Bool.false_ne_true, fun hf => absurd hf Bool.false_ne_true⟩
  rw [hholds] at hj ⊢
  exact h.first j hj

theorem safeInv_boot {s : Device} (h : SafeInv crc s) (hsound : Sound crc (boot crc product s)) :
    SafeInv crc (boot crc product s) := by
  have hholds : ∀ k, (slots crc (boot crc product s) k).Holds ↔ (slots crc s k).Holds := by
    intro k
    rw [Store.Holds, Store.Holds, boot_slot]
  refine ⟨hsound, fun k hk => (hholds k).mpr (h.saved k hk), fun k hk => ?_, fun _ k hk => ?_,
    fun _ hn => ?_⟩
  · rw [hholds] at hk ⊢
    exact h.first k hk
  · rw [hholds] at hk
    have hrisk : (boot crc product s).atRisk k = false := rfl
    rw [BackedBy, hrisk, slots_boot (h.marked .main) (h.first k hk)]
    exact Store.backed_renumber (h.marked k) hk
  · rw [hholds] at hn
    have hm : (boot crc product s).ram.modified .main = true := boot_modified hn
    refine ⟨hm, .inr ?_⟩
    rw [boot_plan]
    exact savePlan_main hm

/-- A clear goes back to identifier 0, so that bank 1 is written next. -/
theorem safeInv_cleared {s t : Device} (h : SafeInv crc s) (ht : Sound crc t) (hon : s.on = true)
    (hbanks : t.banks = s.banks) (hstamp : t.stamp = s.stamp) (hsaved : t.saved = s.saved)
    (hk : ∀ k, (t.ram.page k).nID = (s.ram.page k).nID ∧ t.atRisk k = s.atRisk k ∨
      (t.ram.page k).nID = 0 ∧ t.atRisk k = !valid crc (s.banks k false))
    (hm : t.ram.modified .main = true) (hp : ∃ rest, t.plan = (.main, false) :: rest) :
    SafeInv crc t := by
  have hslot : ∀ k, (slots crc t k).slot = (slots crc s k).slot := by
    intro k
    rw [slots_renumber hbanks hstamp]
    rfl
  have hholds : ∀ k, (slots crc t k).Holds ↔ (slots crc s k).Holds := by
    intro k
    rw [Store.Holds, Store.Holds, hslot]
  refine ⟨ht, fun k hs => ?_, fun k hs => ?_, fun _ k hs => ?_, fun _ _ => ⟨hm, .inr hp⟩⟩
  · rw [hsaved] at hs
    exact (hholds k).mpr (h.saved k hs)
  · rw [hholds] at hs ⊢
    exact h.first k hs
  · rw [hholds] at hs
    rcases hk k with ⟨hid, hrisk⟩ | ⟨hid, hrisk⟩
    · have hsame : slots crc t k = slots crc s k := by
        rw [slots_renumber hbanks hstamp, hid]
        rfl
      rw [BackedBy, hrisk, hsame]
      exact h.backed hon k hs
    · have hlast : parity (slots crc t k).last = false := by
        simp only [slots, hid]
        rfl
      rw [BackedBy, hrisk, Store.Backed, hlast, hslot]
      cases hv : valid crc (s.banks k false) with
      | true =>
        simp only [Bool.not_true, Bool.false_eq_true, if_false]
        rw [slot_isSome]
        exact hv
      | false =>
        obtain ⟨b, hb⟩ := hs
        simp only [Bool.not_false, if_true]
        cases b with
        | false =>
          rw [slot_isSome, hv] at hb
          cases hb
        | true => exact hb

theorem safeInv_step {s t : Device} {a : Action} (h : SafeInv crc s) (hroom : Room s a)
    (hg : Spares crc s a) (hstep : step crc product s a = some t) : SafeInv crc t := by
  have ht := sound_step h.toSound hroom hstep
  rcases step_cases hstep with ⟨hon, hp, r, p, hkeep, hplan, rfl⟩ | ⟨hon, hp, hclear⟩ |
    ⟨k, second, rest, hp, hwrite⟩ | ⟨hon, rfl, rfl⟩ | ⟨hoff, rfl, rfl⟩
  · refine h.of_slots ht rfl (fun k => ?_) rfl rfl fun _ hn => ?_
    · simp only [slots, hkeep.nID]
    · have hm := hkeep.modified .main (h.head hon hn).1
      refine ⟨hm, ?_⟩
      rcases hplan with rfl | ⟨force, rfl⟩
      · exact .inl rfl
      · exact .inr (savePlan_main (by simp [hm]))
  · rcases hclear with ⟨rfl, rfl⟩ | ⟨rfl, rfl⟩
    · exact safeInv_cleared h ht hon rfl rfl rfl (fun k => .inr ⟨clear_nID product _ k, rfl⟩)
        (fillDefaults_modified product _) (savePlan_main rfl)
    · refine safeInv_cleared h ht hon rfl rfl rfl (fun k => ?_) (fillDefaults_modified product _)
        (savePlan_main rfl)
      have hid := clearObject_nID product s.ram k
      by_cases hk : k = .main
      · rw [if_pos hk] at hid
        exact .inl ⟨hid, by simp [startClearObject, hk]⟩
      · rw [if_neg hk] at hid
        exact .inr ⟨hid, by simp [startClearObject, hk]⟩
  · have hw : (k, second) ∈ s.plan.head? := by
      rw [hp]
      rfl
    rcases hwrite with ⟨rfl, rfl⟩ | ⟨rfl, rfl⟩ | ⟨torn, hr, ⟨rfl, rfl⟩ | ⟨rfl, rfl⟩⟩
    · exact safeInv_writeDone h hp (hroom _ hw) ht
    · exact hg.elim
    · exact safeInv_writeShort h hp hr (hroom _ hw) (hg _ hw) ht
    · exact safeInv_writeCut h hp hr (hroom _ hw) (hg _ hw) ht
  · exact ⟨ht, h.saved, h.first, fun hf => absurd hf Bool.false_ne_true,
      fun hf => absurd hf Bool.false_ne_true⟩
  · exact safeInv_boot h ht

/-- Along a run whose steps spare the last readable bank, every pool that was saved can be read. -/
theorem readable_of_spares {s u : Device} {acts : List Action} (hs : Start crc s)
    (h : ∀ v a, Takes (step crc product) s acts v a → Room v a ∧ Spares crc v a)
    (hv : Visits (step crc product) s acts u) : Readable crc u :=
  (inv_of_takes (safeInv_start hs) (fun _ _ _ hi hg => safeInv_step hi hg.1 hg.2) h hv).readable

end CrashSafety

section Runs

/-- The retry of a short write goes over the other bank. -/
theorem retried_short_write_loses :
    ∃ u, exec (step checksum bareProduct) (firstBoot ++ [.set (.netSetIP 5), .save false,
        .write (.short torn), .save false, .write (.short torn)]) blankDevice = some u ∧
      ¬ Readable checksum u := by
  refine ⟨_, rfl, fun h => ?_⟩
  obtain ⟨b, hb⟩ := h .main rfl
  revert hb
  cases b <;> decide

theorem cut_save_readable :
    ∃ u, exec (step checksum bareProduct) (firstBoot ++ [.set (.netSetIP 5), .save false,
        .write (.short torn), .powerLoss none, .boot, .save true, .powerLoss (some torn)])
        blankDevice = some u ∧ u.saved .main = true ∧ Readable checksum u := by
  obtain ⟨u, hu, hm⟩ : ∃ u, exec (step checksum bareProduct) (firstBoot ++ [.set (.netSetIP 5),
      .save false, .write (.short torn), .powerLoss none, .boot, .save true,
      .powerLoss (some torn)]) blankDevice = some u ∧ u.saved .main = true := ⟨_, rfl, rfl⟩
  exact ⟨u, hu, hm, readable_of_spares start_blankDevice (takes_of_along (by decide))
    ⟨_, List.prefix_rfl, hu⟩⟩

end Runs

end EdgeNode.Config
