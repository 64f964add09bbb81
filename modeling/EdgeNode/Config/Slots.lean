import EdgeNode.Config.System
import EdgeNode.Lib.TwoSlot

/-! The two-slot store that each pool is, and what every run keeps of it. -/

namespace EdgeNode.Config

open TwoSlot

section Slots

variable (crc : ∀ k, UInt32 → UInt32 → Body k → UInt32) {product : Product}

def slots (s : Device) (k : Kind) : Store where
  last := (s.ram.page k).nID.toNat
  slot b := if valid crc (s.banks k b) then some ⟨(s.banks k b).nID.toNat, s.stamp k b⟩ else none

variable {crc}

theorem bankOf_eq (n : UInt32) : bankOf n = parity n.toNat := by
  have h : (n &&& 1 == 1) = ((n &&& 1).toNat == (1 : UInt32).toNat) := by
    rw [Bool.eq_iff_iff, beq_iff_eq, beq_iff_eq, UInt32.toNat_inj]
  rw [bankOf, h, UInt32.toNat_and, parity]
  simp [Nat.and_one_is_mod]

variable (crc) in
theorem nextPage_nID {k : Kind} {p : Page (Body k)} (h : p.nID.toNat < maxInt32) :
    (nextPage crc p).nID.toNat = p.nID.toNat + 1 := by
  simp only [nextPage, UInt32.toNat_add, UInt32.toNat_one, maxInt32] at h ⊢
  omega

theorem valid_nextPage {k : Kind} {p : Page (Body k)} (ht : p.ulTag = poolVersion)
    (h : p.nID.toNat < maxInt32) : valid crc (nextPage crc p) = true := by
  have hn : (nextPage crc p).nID.toNat ≤ maxInt32 := by
    rw [nextPage_nID crc h]
    exact h
  simp [valid, hn]
  simp [nextPage, pageCrc, ht]

theorem valid_of_rejected {k : Kind} {p : Page (Body k)} (h : Rejected crc p) :
    valid crc p = false := by
  have hn : (p.ulCRC == pageCrc crc p) = false := beq_eq_false_iff_ne.mpr h
  simp [valid, hn]

@[simp] theorem advance_page (k : Kind) (r : Ram) :
    (advance crc k r).page k = nextPage crc (r.page k) := by
  simp [advance]

@[simp] theorem advance_tag (k j : Kind) (r : Ram) :
    ((advance crc k r).page j).ulTag = (r.page j).ulTag := by
  by_cases hj : j = k
  · subst hj
    simp [advance, nextPage]
  · simp [advance, hj]

theorem advance_page_other {j k : Kind} (h : j ≠ k) (r : Ram) :
    (advance crc k r).page j = r.page j := by
  simp [advance, h]

@[simp] theorem endWrite_page (k : Kind) (second : Bool) (r : Ram) :
    (endWrite k second r).page = r.page := by
  cases second <;> rfl

variable (crc) in
theorem target_slots {s : Device} {k : Kind} (h : (s.ram.page k).nID.toNat < maxInt32) :
    bankOf (written crc s k).nID = (slots crc s k).target := by
  rw [bankOf_eq, written, nextPage_nID crc h]
  rfl

theorem writeBank_self (k : Kind) (b : Bool) (p : Page (Body k)) (banks : Banks) :
    writeBank k b p banks k b = p := by
  simp [writeBank]

theorem writeBank_other {k : Kind} {b c : Bool} (h : c ≠ b) (p : Page (Body k)) (banks : Banks) :
    writeBank k b p banks k c = banks k c := by
  simp [writeBank, h]

theorem writeBank_kind {j k : Kind} (h : j ≠ k) (b : Bool) (p : Page (Body k)) (banks : Banks) :
    writeBank k b p banks j = banks j := by
  simp [writeBank, h]

theorem slots_writeDone {s : Device} {k : Kind} {second : Bool} {rest : List (Kind × Bool)}
    (ht : (s.ram.page k).ulTag = poolVersion) (h : (s.ram.page k).nID.toNat < maxInt32) :
    slots crc (writeDone crc k second rest s) k = (slots crc s k).write s.clock := by
  have hn := nextPage_nID crc h
  have hb := target_slots crc h
  refine Store.ext (by simp [slots, writeDone, hn]) (funext fun b => ?_)
  by_cases hc : b = (slots crc s k).target
  · have hbank : (writeDone crc k second rest s).banks k b = written crc s k := by
      rw [hc, ← hb]
      exact writeBank_self _ _ _ _
    have hstamp : (writeDone crc k second rest s).stamp k b = s.clock := by
      rw [hc, ← hb]
      simp [writeDone]
    have hslot : ((slots crc s k).write s.clock).slot b = some ⟨(slots crc s k).last + 1, s.clock⟩ := by
      rw [hc, Store.write_slot_target]
    have hv : valid crc (written crc s k) = true := valid_nextPage ht h
    rw [hslot]
    simp only [slots, hbank, hstamp, hv, if_true]
    simp only [written, hn]
  · have hbank : (writeDone crc k second rest s).banks k b = s.banks k b :=
      writeBank_other (by rw [hb]; exact hc) _ _
    have hstamp : (writeDone crc k second rest s).stamp k b = s.stamp k b := by
      simp [writeDone, hb, hc]
    have hslot : ((slots crc s k).write s.clock).slot b = (slots crc s k).slot b :=
      Function.update_of_ne hc _ _
    rw [hslot]
    simp only [slots, hbank, hstamp]

theorem slots_torn {s t : Device} {k : Kind} {torn : Page (Body k)} (hr : Rejected crc torn)
    (h : (s.ram.page k).nID.toNat < maxInt32)
    (hb : t.banks = writeBank k (bankOf (written crc s k).nID) torn s.banks)
    (hs : t.stamp = s.stamp) : (slots crc t k).slot = (slots crc s k).tear.slot := by
  rw [target_slots crc h] at hb
  funext b
  by_cases hc : b = (slots crc s k).target
  · have hbank : t.banks k b = torn := by
      rw [hb, hc]
      exact writeBank_self _ _ _ _
    rw [hc, Store.tear_slot_target, ← hc]
    simp [slots, hbank, valid_of_rejected hr]
  · have hslot : (slots crc s k).tear.slot b = (slots crc s k).slot b := Function.update_of_ne hc _ _
    have hbank : t.banks k b = s.banks k b := by
      rw [hb]
      exact writeBank_other hc _ _
    rw [hslot]
    simp only [slots, hbank, hs]

theorem slots_writeShort {s : Device} {k : Kind} {torn : Page (Body k)} (hr : Rejected crc torn)
    (h : (s.ram.page k).nID.toNat < maxInt32) :
    slots crc (writeShort crc k torn s) k = (slots crc s k).tear :=
  Store.ext (by simp [slots, writeShort, nextPage_nID crc h]) (slots_torn hr h rfl rfl)

theorem slots_other {s t : Device} {j k : Kind} (hj : j ≠ k) {p : Page (Body k)} {b : Bool}
    (hr : (t.ram.page j).nID = (s.ram.page j).nID) (hb : t.banks = writeBank k b p s.banks)
    (hs : t.stamp j = s.stamp j) : slots crc t j = slots crc s j := by
  simp only [slots, hr, hb, hs, writeBank_kind hj]

theorem slots_writeDone_other {s : Device} {j k : Kind} (hj : j ≠ k) {second : Bool}
    {rest : List (Kind × Bool)} :
    slots crc (writeDone crc k second rest s) j = slots crc s j :=
  slots_other hj (by simp [writeDone, advance_page_other hj]) rfl (by simp [writeDone, hj])

theorem slots_writeShort_other {s : Device} {j k : Kind} (hj : j ≠ k) {torn : Page (Body k)} :
    slots crc (writeShort crc k torn s) j = slots crc s j :=
  slots_other hj (by simp [writeShort, advance_page_other hj]) rfl rfl

theorem slots_writeCut {s : Device} {k : Kind} {torn : Page (Body k)} (hr : Rejected crc torn)
    (h : (s.ram.page k).nID.toNat < maxInt32) :
    (slots crc (writeCut crc k torn s) k).slot = (slots crc s k).tear.slot :=
  slots_torn hr h rfl rfl

theorem slots_writeCut_other {s : Device} {j k : Kind} (hj : j ≠ k) {torn : Page (Body k)} :
    slots crc (writeCut crc k torn s) j = slots crc s j :=
  slots_other hj rfl rfl rfl

theorem slots_renumber {s t : Device} {k : Kind} (hb : t.banks = s.banks) (hs : t.stamp = s.stamp) :
    slots crc t k = (slots crc s k).renumber (t.ram.page k).nID.toNat := by
  simp only [slots, Store.renumber, hb, hs]

theorem holds_slots {s : Device} {k : Kind} :
    (slots crc s k).Holds ↔ ∃ b, valid crc (s.banks k b) = true := by
  constructor
  · rintro ⟨b, hb⟩
    refine ⟨b, ?_⟩
    by_contra hv
    simp [slots, hv] at hb
  · rintro ⟨b, hb⟩
    exact ⟨b, by simp [slots, hb]⟩

theorem slot_isSome {s : Device} {k : Kind} {b : Bool} :
    ((slots crc s k).slot b).isSome = valid crc (s.banks k b) := by
  simp only [slots]
  cases valid crc (s.banks k b) <;> rfl

theorem loadBank_nID {k : Kind} (config p : Page (Body k)) : (loadBank crc config p).nID.toNat =
    max config.nID.toNat (if valid crc p then p.nID.toNat else 0) := by
  unfold loadBank
  cases hv : valid crc p with
  | false => simp
  | true =>
    by_cases hlt : config.nID < p.nID
    · have hle : config.nID.toNat ≤ p.nID.toNat := Nat.le_of_lt (UInt32.lt_iff_toNat_lt.mp hlt)
      simp [hlt, Nat.max_eq_right hle]
    · have hle : p.nID.toNat ≤ config.nID.toNat := by
        rw [UInt32.lt_iff_toNat_lt] at hlt
        omega
      simp [hlt, Nat.max_eq_left hle]

/-- `FTE_CFG_init` reads the entry with the larger number back. -/
theorem loadPool_nID (s : Device) (k : Kind) :
    (loadPool crc product s.banks k).nID.toNat = (slots crc s k).newest := by
  rw [loadPool, loadBank_nID, loadBank_nID]
  simp only [zeroPage, UInt32.toNat_zero, Nat.zero_max, Store.newest, slots]
  cases valid crc (s.banks k false) <;> cases valid crc (s.banks k true) <;> rfl

theorem loadPool_of_lt {banks : Banks} {k : Kind} {b : Bool} (hb : valid crc (banks k b) = true)
    (hlt : (banks k (!b)).nID < (banks k b).nID) :
    loadPool crc product banks k = banks k b := by
  have hpos : ∀ {n m : UInt32}, n < m → 0 < m := by
    intro n m h
    rw [UInt32.lt_iff_toNat_lt] at h ⊢
    exact Nat.zero_lt_of_lt h
  have hzero : (zeroPage product k).nID = 0 := rfl
  cases b with
  | false =>
    have hfirst : loadBank crc (zeroPage product k) (banks k false) = banks k false := by
      simp [loadBank, hb, hzero, hpos hlt]
    have hnot : ¬ (banks k false).nID < (banks k true).nID := by
      rw [UInt32.lt_iff_toNat_lt] at hlt ⊢
      exact Nat.lt_asymm hlt
    rw [loadPool, hfirst]
    simp [loadBank, hnot]
  | true =>
    have hfirst : (loadBank crc (zeroPage product k) (banks k false)).nID <
        (banks k true).nID := by
      unfold loadBank
      split
      · exact hlt
      · exact hpos hlt
    rw [loadPool, loadBank, hb, decide_eq_true hfirst]
    rfl

theorem loadPool_tag {banks : Banks} {k : Kind} (h : (loadPool crc product banks k).nID ≠ 0) :
    (loadPool crc product banks k).ulTag = poolVersion := by
  have htag : ∀ {config p : Page (Body k)}, (config.nID ≠ 0 → config.ulTag = poolVersion) →
      (loadBank crc config p).nID ≠ 0 → (loadBank crc config p).ulTag = poolVersion := by
    intro config p hc hn
    unfold loadBank at hn ⊢
    split at hn
    · rename_i hv
      rw [if_pos hv]
      simp only [valid, Bool.and_eq_true, beq_iff_eq] at hv
      exact hv.1.1.2
    · rename_i hv
      rw [if_neg hv]
      exact hc hn
  exact htag (htag fun hz => absurd rfl hz) h

variable (product) in
theorem keeps_foldl_initDefaults (ks : List Kind) (r : Ram) :
    Keeps r (ks.foldl (fun r k => initDefaults product k r) r) := by
  induction ks generalizing r with
  | nil => exact .refl r
  | cons k ks ih => exact (keeps_initDefaults product k r).trans (ih _)

theorem keeps_initRam (banks : Banks) :
    Keeps (loadPools crc product banks) (initRam crc product banks) :=
  keeps_foldl_initDefaults product kinds _

theorem loadPools_tag {banks : Banks} {k : Kind}
    (h : ((loadPools crc product banks).page k).nID ≠ 0) :
    ((loadPools crc product banks).page k).ulTag = poolVersion := by
  simp only [loadPools] at h ⊢
  split at h
  · rename_i hk
    rw [if_pos hk]
    exact loadPool_tag h
  · exact absurd rfl h

theorem foldl_initDefaults_tag {ks : List Kind} {r : Ram} {k : Kind} (hk : k ∈ ks)
    (hr : ∀ j, (r.page j).nID ≠ 0 → (r.page j).ulTag = poolVersion) :
    ((ks.foldl (fun r k => initDefaults product k r) r).page k).ulTag = poolVersion := by
  induction ks generalizing r with
  | nil => cases hk
  | cons j ks ih =>
    rw [List.foldl_cons]
    have hkeep := keeps_initDefaults product j r
    by_cases hkj : k = j
    · have htag := initDefaults_tag product (hr j)
      rw [hkj]
      exact (keeps_foldl_initDefaults product ks _).tag j htag
    · refine ih ((List.mem_cons.mp hk).resolve_left hkj) fun i hi => hkeep.tag i (hr i ?_)
      rw [hkeep.nID] at hi
      exact hi

theorem mem_kinds (k : Kind) : k ∈ kinds := by
  cases k <;> simp [kinds]

theorem initRam_tag (banks : Banks) (k : Kind) :
    ((initRam crc product banks).page k).ulTag = poolVersion := by
  have hload : ∀ j, ((loadPools crc product banks).page j).nID ≠ 0 →
      ((loadPools crc product banks).page j).ulTag = poolVersion := fun j hj => loadPools_tag hj
  rw [initRam]
  generalize loadPools crc product banks = r at hload
  exact foldl_initDefaults_tag (mem_kinds k) hload

theorem initRam_nID (s : Device) (k : Kind) : ((initRam crc product s.banks).page k).nID.toNat =
    if k = .main ∨ (slots crc s .main).newest ≠ 0 then (slots crc s k).newest else 0 := by
  have hload : (loadPool crc product s.banks .main).nID.toNat = (slots crc s .main).newest :=
    loadPool_nID s .main
  have hmain : (loadPool crc product s.banks .main).nID ≠ 0 ↔ (slots crc s .main).newest ≠ 0 := by
    rw [← hload, ← UInt32.toNat_zero, Ne, Ne, UInt32.toNat_inj]
  rw [(keeps_initRam s.banks).nID]
  simp only [loadPools, hmain]
  split
  · exact loadPool_nID s k
  · rfl

theorem boot_ram (s : Device) : (boot crc product s).ram = initRam crc product s.banks := by
  simp only [boot]

theorem boot_banks (s : Device) : (boot crc product s).banks = s.banks := rfl

theorem boot_plan (s : Device) :
    (boot crc product s).plan = savePlan false (boot crc product s).ram := by
  simp only [boot]

theorem boot_stamp (s : Device) : (boot crc product s).stamp = s.stamp := rfl

theorem slots_boot {s : Device} (hm : (slots crc s .main).Marked) (h : (slots crc s .main).Holds)
    (k : Kind) :
    slots crc (boot crc product s) k = (slots crc s k).renumber (slots crc s k).newest := by
  have hpos := Nat.pos_iff_ne_zero.mp (Store.newest_pos hm h)
  have hid : ((boot crc product s).ram.page k).nID.toNat = (slots crc s k).newest := by
    rw [boot_ram, initRam_nID, if_pos (.inr hpos)]
  rw [slots_renumber (boot_banks s) (boot_stamp s), hid]

theorem initRam_modified {banks : Banks} (hz : ((loadPools crc product banks).page .main).nID = 0) :
    (initRam crc product banks).modified .main = true := by
  have hmain : (initDefaults product .main (loadPools crc product banks)).modified .main = true := by
    rw [initDefaults, if_pos hz]
    exact modified_setSections product _
  rw [initRam]
  generalize loadPools crc product banks = r at hmain
  have hkeep := keeps_foldl_initDefaults product [.object, .event, .ext]
    (initDefaults product .main r)
  rw [kinds, List.foldl_cons]
  exact hkeep.modified .main hmain

theorem boot_modified {s : Device} (h : ¬ (slots crc s .main).Holds) :
    (boot crc product s).ram.modified .main = true := by
  rw [boot_ram]
  refine initRam_modified ?_
  rw [← UInt32.toNat_inj, ← (keeps_initRam s.banks).nID, initRam_nID, Store.newest_eq_zero h,
    ite_self]
  rfl

theorem boot_slot (s : Device) (k : Kind) :
    (slots crc (boot crc product s) k).slot = (slots crc s k).slot := by
  rw [slots_renumber (boot_banks s) (boot_stamp s)]
  rfl

end Slots

section Sound

variable {crc : ∀ k, UInt32 → UInt32 → Body k → UInt32} {product : Product}

variable (crc) in
/-- A unit that is off writes nothing, the pools in RAM have their tags, and every readable bank an
identifier of its own parity. -/
structure Sound (s : Device) : Prop where
  off : s.on = false → s.plan = []
  tag : s.on = true → ∀ k, (s.ram.page k).ulTag = poolVersion
  marked : ∀ k, (slots crc s k).Marked

theorem not_holds_start {s : Device} (h : Start crc s) (k : Kind) : ¬ (slots crc s k).Holds := by
  intro hk
  obtain ⟨b, hb⟩ := holds_slots.mp hk
  rw [h.blank k b] at hb
  cases hb

theorem sound_start {s : Device} (h : Start crc s) : Sound crc s := by
  refine ⟨fun _ => h.plan, fun hon => ?_, fun k b e he => ?_⟩
  · rw [h.off] at hon
    cases hon
  · exact absurd ⟨b, by rw [he]; rfl⟩ (not_holds_start h k)

theorem Sound.on_of_plan {s : Device} {w : Kind × Bool} {rest : List (Kind × Bool)}
    (h : Sound crc s) (hp : s.plan = w :: rest) : s.on = true := by
  by_contra hn
  rw [h.off (by simpa using hn)] at hp
  cases hp

theorem sound_write {s t : Device} {k : Kind} (h : Sound crc s) (hon : s.on = true)
    (htag : ∀ j, (t.ram.page j).ulTag = (s.ram.page j).ulTag)
    (hother : ∀ j, j ≠ k → slots crc t j = slots crc s j) (hself : (slots crc t k).Marked)
    (hoff : t.on = false → t.plan = []) : Sound crc t := by
  refine ⟨hoff, fun _ j => (htag j).trans (h.tag hon j), fun j => ?_⟩
  by_cases hj : j = k
  · subst hj
    exact hself
  · rw [hother j hj]
    exact h.marked j

theorem sound_step {s t : Device} {a : Action} (h : Sound crc s) (hroom : Room s a)
    (hstep : step crc product s a = some t) : Sound crc t := by
  rcases step_cases hstep with ⟨hon, hp, r, p, hkeep, -, rfl⟩ | ⟨hon, hp, hclear⟩ |
    ⟨k, second, rest, hp, hwrite⟩ | ⟨hon, rfl, rfl⟩ | ⟨hoff, rfl, rfl⟩
  · have hf : s.on ≠ false := by simp [hon]
    refine ⟨fun hn => absurd hn hf, fun _ k => hkeep.tag k (h.tag hon k), fun k => ?_⟩
    exact h.marked k
  · have hf : s.on ≠ false := by simp [hon]
    rcases hclear with ⟨rfl, rfl⟩ | ⟨rfl, rfl⟩
    · exact ⟨fun hn => absurd hn hf, fun _ => fillDefaults_tag product _, h.marked⟩
    · exact ⟨fun hn => absurd hn hf, fun _ => fillDefaults_tag product _, h.marked⟩
  · have hon := h.on_of_plan hp
    have hf : s.on ≠ false := by simp [hon]
    have hw : (k, second) ∈ s.plan.head? := by
      rw [hp]
      rfl
    rcases hwrite with ⟨rfl, rfl⟩ | ⟨rfl, rfl⟩ | ⟨torn, hr, ⟨rfl, rfl⟩ | ⟨rfl, rfl⟩⟩
    · refine sound_write h hon (by simp [writeDone]) (fun j hj => slots_writeDone_other hj) ?_
        fun hn => absurd hn hf
      rw [slots_writeDone (h.tag hon k) (hroom _ hw)]
      exact (h.marked k).write _
    · exact ⟨fun hn => absurd hn hf, by simpa [writeSkipped] using h.tag, h.marked⟩
    · refine sound_write h hon (by simp [writeShort]) (fun j hj => slots_writeShort_other hj) ?_
        fun _ => rfl
      rw [slots_writeShort hr (hroom _ hw)]
      exact (h.marked k).tear
    · refine sound_write h hon (fun _ => rfl) (fun j hj => slots_writeCut_other hj) ?_
        fun _ => rfl
      rw [Store.Marked, slots_writeCut hr (hroom _ hw)]
      exact (h.marked k).tear
  · exact ⟨fun _ => rfl, fun hf => absurd hf Bool.false_ne_true, h.marked⟩
  · refine ⟨fun hf => absurd hf.symm Bool.false_ne_true, fun _ k => ?_, fun k => ?_⟩
    · rw [boot_ram]
      exact initRam_tag s.banks k
    · rw [Store.Marked, boot_slot]
      exact h.marked k

end Sound

end EdgeNode.Config
