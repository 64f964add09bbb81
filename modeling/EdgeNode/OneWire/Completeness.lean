import EdgeNode.Lib.Enumeration
import EdgeNode.OneWire.Search

/-! Every pass of the search finds the next code in the order of the first differing bit, so the
search finds each code once. -/

namespace EdgeNode.OneWire

/-- The codes have the same first `i` bits. -/
def AgreeBelow (i : Nat) (a b : RomCode) : Prop := ∀ j < i, getBitAt a j = getBitAt b j

/-- `a` has a zero where it first differs from `b`, among the first `i` bits. -/
def BeforeBy (i : Nat) (a b : RomCode) : Prop :=
  ∃ j < i, AgreeBelow j a b ∧ getBitAt a j = false ∧ getBitAt b j = true

def Before (a b : RomCode) : Prop := BeforeBy 64 a b

/-- A device parts from the code at its bit `i`, on the side the search takes last. -/
def Parts (devices : List RomCode) (r : RomCode) (i : Nat) : Prop :=
  getBitAt r i = false ∧ ∃ d ∈ devices, AgreeBelow i d r ∧ getBitAt d i = true

/-- The conflict positions of a code, the last one first. -/
structure Conflicts (devices : List RomCode) (r : RomCode) (i : Nat) (com : List Nat) : Prop where
  sorted : com.Pairwise (· > ·)
  mem : ∀ j, j ∈ com ↔ j < i ∧ Parts devices r j

/-- The devices that have sent what was written for the first `i` bits. -/
def Takes (devices : List RomCode) (i : Nat) (s : Pass) : Prop :=
  ∀ d, d ∈ s.active ↔ d ∈ devices ∧ AgreeBelow i d s.pROMCode

theorem AgreeBelow.succ {i : Nat} {a b : RomCode} (h : AgreeBelow i a b)
    (hi : getBitAt a i = getBitAt b i) : AgreeBelow (i + 1) a b := by
  intro j hj
  obtain hlt | rfl := Nat.lt_succ_iff_lt_or_eq.mp hj
  · exact h j hlt
  · exact hi

theorem AgreeBelow.mono {i j : Nat} {a b : RomCode} (h : AgreeBelow i a b) (hj : j ≤ i) :
    AgreeBelow j a b := fun k hk => h k (Nat.lt_of_lt_of_le hk hj)

theorem AgreeBelow.symm {i : Nat} {a b : RomCode} (h : AgreeBelow i a b) : AgreeBelow i b a :=
  fun j hj => (h j hj).symm

theorem AgreeBelow.trans {i : Nat} {a b c : RomCode} (h : AgreeBelow i a b)
    (h' : AgreeBelow i b c) : AgreeBelow i a c := fun j hj => (h j hj).trans (h' j hj)

theorem AgreeBelow.eq {a b : RomCode} (h : AgreeBelow 64 a b) : a = b := eq_of_getBitAt h

theorem BeforeBy.mono {i j : Nat} {a b : RomCode} (h : BeforeBy i a b) (hj : i ≤ j) :
    BeforeBy j a b := by
  obtain ⟨k, hk, hab⟩ := h
  exact ⟨k, Nat.lt_of_lt_of_le hk hj, hab⟩

theorem BeforeBy.congr {i : Nat} {a b c : RomCode} (h : BeforeBy i a c) (hab : AgreeBelow i a b) :
    BeforeBy i b c := by
  obtain ⟨k, hk, hac, h0, h1⟩ := h
  exact ⟨k, hk, (hab.symm.mono (Nat.le_of_lt hk)).trans hac, (hab k hk).symm.trans h0, h1⟩

instance : IsStrictOrder RomCode Before where
  irrefl a h := by
    obtain ⟨i, -, -, h0, h1⟩ := h
    rw [h0] at h1
    cases h1
  trans a b c hab hbc := by
    obtain ⟨i, hi, hagree, ha, hb⟩ := hab
    obtain ⟨j, hj, hagree', hb', hc⟩ := hbc
    obtain hlt | rfl | hgt := Nat.lt_trichotomy i j
    · exact ⟨i, hi, hagree.trans (hagree'.mono (Nat.le_of_lt hlt)), ha,
        (hagree' i hlt).symm.trans hb⟩
    · rw [hb'] at hb
      cases hb
    · exact ⟨j, hj, (hagree.mono (Nat.le_of_lt hgt)).trans hagree',
        (hagree j hgt).trans hb', hc⟩

theorem Parts.congr {devices : List RomCode} {a b : RomCode} {i : Nat}
    (h : AgreeBelow (i + 1) a b) (hp : Parts devices a i) : Parts devices b i := by
  obtain ⟨h0, d, hd, hda, h1⟩ := hp
  exact ⟨(h i (Nat.lt_succ_self i)).symm.trans h0, d, hd,
    hda.trans (h.mono (Nat.le_succ i)), h1⟩

/-- What comes after a code first differs from it where a device parts from it. -/
theorem Before.parts {devices : List RomCode} {r d : RomCode} (hd : d ∈ devices)
    (h : Before r d) : ∃ j < 64, Parts devices r j ∧ AgreeBelow j d r ∧ getBitAt d j = true := by
  obtain ⟨j, hj, hagree, h0, h1⟩ := h
  exact ⟨j, hj, ⟨h0, d, hd, hagree.symm, h1⟩, hagree.symm, h1⟩

section Reads

variable {active : List RomCode} {i : Nat}

theorem readBits_zero (h0 : ∃ d ∈ active, getBitAt d i = false)
    (h1 : ∃ d ∈ active, getBitAt d i = true) : readBits active i = 0 := by
  obtain ⟨a, ha, ha0⟩ := h0
  obtain ⟨b, hb, hb1⟩ := h1
  have hall : (active.all fun d => getBitAt d i) = false :=
    List.all_eq_false.mpr ⟨a, ha, by simp [ha0]⟩
  have hnone : (active.all fun d => !getBitAt d i) = false :=
    List.all_eq_false.mpr ⟨b, hb, by simp [hb1]⟩
  simp [readBits, hall, hnone]

theorem readBits_one (h : active ≠ []) (h1 : ∀ d ∈ active, getBitAt d i = true) :
    readBits active i = 1 := by
  obtain ⟨a, ha⟩ := List.exists_mem_of_ne_nil active h
  have hall : (active.all fun d => getBitAt d i) = true := List.all_eq_true.mpr h1
  have hnone : (active.all fun d => !getBitAt d i) = false :=
    List.all_eq_false.mpr ⟨a, ha, by simp [h1 a ha]⟩
  simp [readBits, hall, hnone]

theorem readBits_two (h : active ≠ []) (h0 : ∀ d ∈ active, getBitAt d i = false) :
    readBits active i = 2 := by
  obtain ⟨a, ha⟩ := List.exists_mem_of_ne_nil active h
  have hall : (active.all fun d => getBitAt d i) = false :=
    List.all_eq_false.mpr ⟨a, ha, by simp [h0 a ha]⟩
  have hnone : (active.all fun d => !getBitAt d i) = true :=
    List.all_eq_true.mpr fun d hd => by simp [h0 d hd]
  simp [readBits, hall, hnone]

theorem bitStep_conflict {s : Pass} (h0 : ∃ d ∈ s.active, getBitAt d i = false)
    (h1 : ∃ d ∈ s.active, getBitAt d i = true) :
    bitStep s i = some (writeBit i (conflict i s)) := by
  simp only [bitStep, readBits_zero h0 h1]

theorem bitStep_allOne {s : Pass} (h : s.active ≠ []) (h1 : ∀ d ∈ s.active, getBitAt d i = true) :
    bitStep s i = some (writeBit i (allOne i s)) := by
  simp only [bitStep, readBits_one h h1]

theorem bitStep_allZero {s : Pass} (h : s.active ≠ [])
    (h0 : ∀ d ∈ s.active, getBitAt d i = false) :
    bitStep s i = some (writeBit i (allZero i s)) := by
  simp only [bitStep, readBits_two h h0]

/-- Devices that take part send a zero, a one or both. -/
theorem reads_cases :
    ((∃ d ∈ active, getBitAt d i = false) ∧ ∃ d ∈ active, getBitAt d i = true) ∨
      (∀ d ∈ active, getBitAt d i = true) ∨ ∀ d ∈ active, getBitAt d i = false := by
  by_cases h1 : ∃ d ∈ active, getBitAt d i = true
  · by_cases h0 : ∃ d ∈ active, getBitAt d i = false
    · exact Or.inl ⟨h0, h1⟩
    · refine Or.inr (Or.inl fun d hd => ?_)
      simpa using fun hf => h0 ⟨d, hd, hf⟩
  · refine Or.inr (Or.inr fun d hd => ?_)
    simpa using fun ht => h1 ⟨d, hd, ht⟩

end Reads

/-- Steps that each keep an invariant of the bits so far keep it through all of them. -/
theorem bits_of_steps {P : Nat → Pass → Prop} {i n : Nat}
    (hstep : ∀ k s, i ≤ k → k < i + n → P k s → ∃ t, bitStep s k = some t ∧ P (k + 1) t)
    {s : Pass} (h : P i s) : ∃ t, bits i n s = some t ∧ P (i + n) t := by
  induction n generalizing i s with
  | zero => exact ⟨s, rfl, h⟩
  | succ n ih =>
    obtain ⟨t, ht, hp⟩ := hstep i s (Nat.le_refl i) (by omega) h
    obtain ⟨u, hu, hp'⟩ := ih (fun k s' hk hk' => hstep k s' (by omega) (by omega)) hp
    refine ⟨u, ?_, by rwa [Nat.add_right_comm] at hp'⟩
    rw [bits, List.range'_succ, List.foldlM_cons, ht]
    exact hu

theorem bits_append {i m n : Nat} {s t : Pass} (h : bits i m s = some t) :
    bits i (m + n) s = bits (i + m) n t := by
  rw [bits, ← List.range'_append_1, List.foldlM_append]
  change (bits i m s).bind _ = _
  rw [h]
  rfl

theorem Takes.writeBit {devices : List RomCode} {i : Nat} {s : Pass} (h : Takes devices i s) :
    Takes devices (i + 1) (writeBit i s) := by
  intro d
  rw [OneWire.writeBit, List.mem_filter, h]
  constructor
  · rintro ⟨⟨hd, ha⟩, hi⟩
    exact ⟨hd, ha.succ (of_decide_eq_true hi)⟩
  · rintro ⟨hd, ha⟩
    exact ⟨⟨hd, ha.mono (Nat.le_succ i)⟩, decide_eq_true (ha i (Nat.lt_succ_self i))⟩

variable {devices : List RomCode} {r : RomCode} {com : List Nat} {i : Nat} {s : Pass}

section Follow

/-- The first `i` bits of a pass that stays with the code of the pass before. -/
structure Follow (devices : List RomCode) (r : RomCode) (com : List Nat) (i : Nat) (s : Pass) :
    Prop where
  rom : s.pROMCode = r
  com : s.pComPos = com
  takes : Takes devices i s
  found : s.bFound = true ↔ ∃ j < i, Parts devices r j

theorem Follow.writeBit {t : Pass} (h : Follow devices r com i s) (hrom : t.pROMCode = r)
    (hcom : t.pComPos = com) (hact : t.active = s.active)
    (hfound : t.bFound = true ↔ s.bFound = true ∨ Parts devices r i) :
    Follow devices r com (i + 1) (writeBit i t) := by
  have ht : Takes devices i t := fun d => by rw [hact, hrom, ← h.rom, h.takes d]
  refine ⟨hrom, hcom, ht.writeBit, hfound.trans ?_⟩
  rw [h.found]
  constructor
  · rintro (⟨j, hj, hp⟩ | hp)
    · exact ⟨j, Nat.lt_succ_of_lt hj, hp⟩
    · exact ⟨i, Nat.lt_succ_self i, hp⟩
  · rintro ⟨j, hj, hp⟩
    obtain hlt | rfl := Nat.lt_succ_iff_lt_or_eq.mp hj
    · exact Or.inl ⟨j, hlt, hp⟩
    · exact Or.inr hp

/-- Before the last conflict position, a pass does not leave the code. -/
theorem Follow.step (h : Follow devices r com i s) (hr : r ∈ devices)
    (hcom : Parts devices r i → ∃ top rest, com = top :: rest ∧ i < top) :
    ∃ t, bitStep s i = some t ∧ Follow devices r com (i + 1) t := by
  have hra : r ∈ s.active := (h.takes r).mpr ⟨hr, fun j _ => by rw [h.rom]⟩
  have hne : s.active ≠ [] := List.ne_nil_of_mem hra
  obtain ⟨h0, d, hd, hd1⟩ | h1 | h0 := @reads_cases s.active i
  · refine ⟨_, bitStep_conflict h0 ⟨d, hd, hd1⟩, ?_⟩
    cases hri : getBitAt r i with
    | true =>
      have hc : conflict i s = s := if_neg (by rw [h.rom, hri]; decide)
      rw [hc]
      refine h.writeBit h.rom h.com rfl ⟨Or.inl, fun hf => hf.resolve_right fun hp => ?_⟩
      rw [hp.1] at hri
      cases hri
    | false =>
      obtain ⟨hdd, hda⟩ := (h.takes d).mp hd
      have hp : Parts devices r i := ⟨hri, d, hdd, h.rom ▸ hda, hd1⟩
      obtain ⟨top, rest, hct, hlt⟩ := hcom hp
      have hc : conflict i s = { s with bFound := true } := by
        rw [conflict, if_pos (by rw [h.rom, hri]), h.com, hct]
        dsimp only
        rw [if_neg (Nat.not_lt_of_lt hlt), if_neg (Nat.ne_of_gt hlt)]
      rw [hc]
      exact h.writeBit h.rom h.com rfl ⟨fun _ => Or.inr hp, fun _ => rfl⟩
  · refine ⟨_, bitStep_allOne hne h1, ?_⟩
    have hc : allOne i s = s := if_neg (by rw [h.rom, h1 r hra]; decide)
    rw [hc]
    refine h.writeBit h.rom h.com rfl ⟨Or.inl, fun hf => hf.resolve_right fun hp => ?_⟩
    have hri := h1 r hra
    rw [hp.1] at hri
    cases hri
  · refine ⟨_, bitStep_allZero hne h0, ?_⟩
    have hc : allZero i s = s := if_neg (by rw [h.rom, h0 r hra]; decide)
    rw [hc]
    refine h.writeBit h.rom h.com rfl ⟨Or.inl, fun hf => hf.resolve_right ?_⟩
    rintro ⟨-, d, hd, hda, hd1⟩
    have hd0 := h0 d ((h.takes d).mpr ⟨hd, h.rom.symm ▸ hda⟩)
    rw [hd1] at hd0
    cases hd0

/-- The pass as it reaches the bit `n`, where no conflict is left before it. -/
theorem Follow.bits {n : Nat} (hr : r ∈ devices)
    (hcom : ∀ j < n, Parts devices r j → ∃ top rest, com = top :: rest ∧ j < top) :
    ∃ t, bits 0 n ⟨r, com, false, devices⟩ = some t ∧ Follow devices r com n t := by
  have hinit : Follow devices r com 0 ⟨r, com, false, devices⟩ :=
    ⟨rfl, rfl, fun d => by simp [AgreeBelow], by simp⟩
  have hb := bits_of_steps (n := n) (fun k s _ hk h => h.step hr (hcom k (by omega))) hinit
  rwa [Nat.zero_add] at hb

end Follow

section Descent

/-- The first `i` bits of a pass on its way down to the first of the codes that satisfy `C`. -/
structure Descent (devices : List RomCode) (C : RomCode → Prop) (i : Nat) (s : Pass) : Prop where
  zero : ∀ j, i ≤ j → getBitAt s.pROMCode j = false
  takes : Takes devices i s
  nonempty : s.active ≠ []
  cand : ∀ d ∈ s.active, C d
  least : ∀ d ∈ devices, C d → AgreeBelow i d s.pROMCode ∨ BeforeBy i s.pROMCode d
  com : Conflicts devices s.pROMCode i s.pComPos
  found : s.bFound = false → ∀ j < i, getBitAt s.pROMCode j = false

variable {C : RomCode → Prop}

theorem Conflicts.congr {a b : RomCode} (h : Conflicts devices a i com) (hab : AgreeBelow i a b) :
    Conflicts devices b i com := by
  refine ⟨h.sorted, fun j => (h.mem j).trans (and_congr_right fun hj => ?_)⟩
  exact ⟨fun hp => hp.congr (hab.mono hj), fun hp => hp.congr (hab.symm.mono hj)⟩

theorem Conflicts.push (h : Conflicts devices r i com) (hp : Parts devices r i) :
    Conflicts devices r (i + 1) (i :: com) := by
  refine ⟨List.pairwise_cons.mpr ⟨fun j hj => ((h.mem j).mp hj).1, h.sorted⟩, fun j => ?_⟩
  rw [List.mem_cons, h.mem]
  constructor
  · rintro (rfl | ⟨hj, hpj⟩)
    · exact ⟨Nat.lt_succ_self j, hp⟩
    · exact ⟨Nat.lt_succ_of_lt hj, hpj⟩
  · rintro ⟨hj, hpj⟩
    exact (Nat.lt_succ_iff_lt_or_eq.mp hj).symm.imp_right fun hlt => ⟨hlt, hpj⟩

theorem Conflicts.skip (h : Conflicts devices r i com) (hp : ¬ Parts devices r i) :
    Conflicts devices r (i + 1) com := by
  refine ⟨h.sorted, fun j => ?_⟩
  rw [h.mem]
  constructor
  · exact fun ⟨hj, hpj⟩ => ⟨Nat.lt_succ_of_lt hj, hpj⟩
  · rintro ⟨hj, hpj⟩
    obtain hlt | rfl := Nat.lt_succ_iff_lt_or_eq.mp hj
    · exact ⟨hlt, hpj⟩
    · exact absurd hpj hp

/-- A bit chosen so that devices have it, and a one only where no device has a zero. -/
theorem Descent.writeBit {t : Pass} (h : Descent devices C i s)
    (hrom : AgreeBelow i s.pROMCode t.pROMCode)
    (hzero : ∀ j, i + 1 ≤ j → getBitAt t.pROMCode j = false) (hact : t.active = s.active)
    (hsome : ∃ d ∈ s.active, getBitAt d i = getBitAt t.pROMCode i)
    (hone : getBitAt t.pROMCode i = true → ∀ d ∈ s.active, getBitAt d i = true)
    (hcom : Conflicts devices t.pROMCode (i + 1) t.pComPos)
    (hfound : t.bFound = false → s.bFound = false ∧ getBitAt t.pROMCode i = false) :
    Descent devices C (i + 1) (writeBit i t) := by
  have ht : Takes devices i t := fun d => by
    rw [hact, h.takes d]
    exact and_congr_right fun _ => ⟨fun ha => ha.trans hrom, fun ha => ha.trans hrom.symm⟩
  refine ⟨hzero, ht.writeBit, ?_, ?_, ?_, hcom, ?_⟩
  · obtain ⟨d, hd, hi⟩ := hsome
    exact List.ne_nil_of_mem (List.mem_filter.mpr ⟨hact ▸ hd, decide_eq_true hi⟩)
  · intro d hd
    exact h.cand d (hact ▸ (List.mem_filter.mp hd).1)
  · intro d hd hCd
    obtain ha | hb := h.least d hd hCd
    · by_cases hi : getBitAt d i = getBitAt t.pROMCode i
      · exact Or.inl ((ha.trans hrom).succ hi)
      · refine Or.inr ⟨i, Nat.lt_succ_self i, hrom.symm.trans ha.symm, ?_⟩
        have hda : d ∈ s.active := (h.takes d).mpr ⟨hd, ha⟩
        have h0 : getBitAt t.pROMCode i = false :=
          Bool.eq_false_iff.mpr fun h1 => hi ((hone h1 d hda).trans h1.symm)
        exact ⟨h0, by simpa [h0] using hi⟩
    · exact Or.inr ((hb.congr hrom).mono (Nat.le_succ i))
  · intro hf j hj
    obtain ⟨hsf, hi⟩ := hfound hf
    obtain hlt | rfl := Nat.lt_succ_iff_lt_or_eq.mp hj
    · exact (hrom j hlt).symm.trans (h.found hsf j hlt)
    · exact hi

theorem Descent.step (h : Descent devices C i s) (hi : i < 64) :
    ∃ t, bitStep s i = some t ∧ Descent devices C (i + 1) t := by
  have hri : getBitAt s.pROMCode i = false := h.zero i (Nat.le_refl i)
  have hzero : ∀ j, i + 1 ≤ j → getBitAt s.pROMCode j = false := fun j hj =>
    h.zero j (Nat.le_of_succ_le hj)
  obtain ⟨h0, d, hd, hd1⟩ | h1 | h0 := @reads_cases s.active i
  · refine ⟨_, bitStep_conflict h0 ⟨d, hd, hd1⟩, ?_⟩
    have hp : Parts devices s.pROMCode i :=
      ⟨hri, d, ((h.takes d).mp hd).1, ((h.takes d).mp hd).2, hd1⟩
    -- every position on the stack is one of this pass, so it lies before `i`
    have hc : conflict i s = { s with pComPos := i :: s.pComPos, bFound := true } := by
      rw [conflict, if_pos hri]
      cases hcp : s.pComPos with
      | nil => rfl
      | cons top rest =>
        have htop : top < i := ((h.com.mem top).mp (by simp [hcp])).1
        dsimp only
        rw [if_pos htop]
    rw [hc]
    obtain ⟨e, he, he0⟩ := h0
    refine h.writeBit (fun _ _ => rfl) hzero rfl ⟨e, he, he0.trans hri.symm⟩ ?_ (h.com.push hp) ?_
    · intro ht
      rw [hri] at ht
      cases ht
    · intro hf
      cases hf
  · refine ⟨_, bitStep_allOne h.nonempty h1, ?_⟩
    have hc : allOne i s = { s with pROMCode := setBitAt s.pROMCode i, bFound := true } :=
      if_pos hri
    have hset : getBitAt (setBitAt s.pROMCode i) i = true := by simp [hi]
    have hagree : AgreeBelow i s.pROMCode (setBitAt s.pROMCode i) := by
      intro j hj
      simp [Nat.ne_of_gt hj]
    have hnp : ¬ Parts devices (setBitAt s.pROMCode i) i := by
      rintro ⟨hf, -⟩
      rw [hset] at hf
      cases hf
    rw [hc]
    obtain ⟨e, he⟩ := List.exists_mem_of_ne_nil _ h.nonempty
    refine h.writeBit hagree ?_ rfl ⟨e, he, (h1 e he).trans hset.symm⟩ (fun _ => h1)
      ((h.com.congr hagree).skip hnp) ?_
    · intro j hj
      simp [hzero j hj, Nat.ne_of_lt hj]
    · intro hf
      cases hf
  · refine ⟨_, bitStep_allZero h.nonempty h0, ?_⟩
    have hc : allZero i s = s := if_neg (by rw [hri]; decide)
    have hnp : ¬ Parts devices s.pROMCode i := by
      rintro ⟨-, d, hd, hda, hd1⟩
      have hd0 := h0 d ((h.takes d).mpr ⟨hd, hda⟩)
      rw [hd1] at hd0
      cases hd0
    rw [hc]
    obtain ⟨e, he⟩ := List.exists_mem_of_ne_nil _ h.nonempty
    refine h.writeBit (fun _ _ => rfl) hzero rfl ⟨e, he, (h0 e he).trans hri.symm⟩ ?_
      (h.com.skip hnp) (fun hf => ⟨hf, hri⟩)
    intro ht
    rw [hri] at ht
    cases ht

theorem Descent.bits (h : Descent devices C i s) (hi : i ≤ 64) :
    ∃ t, bits i (64 - i) s = some t ∧ Descent devices C 64 t := by
  have hb := bits_of_steps (n := 64 - i) (fun k s _ hk hd => hd.step (by omega)) h
  rwa [Nat.add_sub_cancel' hi] at hb

/-- A pass that has come down found the first of the codes, with its conflict positions. -/
theorem Descent.result (h : Descent devices C 64 s) :
    s.pROMCode ∈ devices ∧ C s.pROMCode ∧
      ∀ d ∈ devices, C d → d = s.pROMCode ∨ Before s.pROMCode d := by
  obtain ⟨d, hd⟩ := List.exists_mem_of_ne_nil _ h.nonempty
  obtain ⟨hdd, hda⟩ := (h.takes d).mp hd
  have he : d = s.pROMCode := hda.eq
  refine ⟨he ▸ hdd, he ▸ h.cand d hd, fun e he' hC => ?_⟩
  exact (h.least e he' hC).imp_left AgreeBelow.eq

theorem Descent.bFound (h : Descent devices C 64 s) (h0 : 0 ∉ devices) : s.bFound = true := by
  by_contra hf
  have hz : s.pROMCode = 0 := eq_of_getBitAt fun k hk => by
    rw [h.found (by simpa using hf) k hk]
    simp [getBitAt]
  exact h0 (hz ▸ h.result.1)

end Descent

section Passes

theorem bits_nil (rom : RomCode) (com : List Nat) : bits 0 64 ⟨rom, com, false, []⟩ = none := rfl

theorem first_pass (h : devices ≠ []) :
    ∃ t, bits 0 64 ⟨0, [], false, devices⟩ = some t ∧ Descent devices (fun _ => True) 64 t := by
  have hinit : Descent devices (fun _ => True) 0 ⟨0, [], false, devices⟩ := by
    refine ⟨fun j _ => ?_, fun d => ?_, h, fun _ _ => trivial, fun _ _ _ => Or.inl fun j hj => ?_,
      ⟨List.Pairwise.nil, fun j => ?_⟩, fun _ j hj => ?_⟩
    · simp [getBitAt]
    · simp [AgreeBelow]
    · exact absurd hj (Nat.not_lt_zero j)
    · simp
    · exact absurd hj (Nat.not_lt_zero j)
  exact hinit.bits (Nat.zero_le 64)

/-- At the last conflict position the pass turns to the one and comes down from there. -/
theorem Follow.turn {top : Nat} {rest : List Nat} (h : Follow devices r (top :: rest) top s)
    (hr : r ∈ devices) (hc : Conflicts devices r 64 (top :: rest)) :
    ∃ t, bitStep s top = some t ∧ Descent devices (Before r) (top + 1) t := by
  obtain ⟨htop, h0, d, hd, hda, hd1⟩ := (hc.mem top).mp List.mem_cons_self
  have hra : r ∈ s.active := (h.takes r).mpr ⟨hr, fun j _ => by rw [h.rom]⟩
  have hdact : d ∈ s.active := (h.takes d).mpr ⟨hd, h.rom.symm ▸ hda⟩
  refine ⟨_, bitStep_conflict ⟨r, hra, h0⟩ ⟨d, hdact, hd1⟩, ?_⟩
  let r' := clrBehind (setBitAt r top) top
  have hcon : conflict top s = { s with pROMCode := r', pComPos := rest, bFound := true } := by
    rw [conflict, if_pos (by rw [h.rom, h0]), h.com]
    dsimp only
    rw [if_neg (Nat.lt_irrefl top), if_pos rfl, h.rom]
  have hbit : getBitAt r' top = true := by simp [r', getBitAt_clrBehind, htop]
  have hagree : AgreeBelow top r r' := by
    intro j hj
    simp [r', getBitAt_clrBehind, Nat.ne_of_gt hj, Nat.le_of_lt hj]
  have htakes : Takes devices (top + 1) (OneWire.writeBit top (conflict top s)) := by
    rw [hcon]
    apply Takes.writeBit
    intro e
    rw [h.takes e, h.rom]
    exact and_congr_right fun _ => ⟨fun ha => ha.trans hagree, fun ha => ha.trans hagree.symm⟩
  have hrom : (OneWire.writeBit top (conflict top s)).pROMCode = r' := by rw [hcon]; rfl
  refine ⟨fun j hj => ?_, htakes, ?_, fun e he => ?_, fun e he hb => ?_, ?_, fun hf => ?_⟩
  · rw [hrom]
    simp [r', getBitAt_clrBehind, Nat.not_le_of_lt hj]
  · refine List.ne_nil_of_mem ((htakes d).mpr ⟨hd, ?_⟩)
    rw [hrom]
    exact (hda.trans hagree).succ (hd1.trans hbit.symm)
  · obtain ⟨-, ha⟩ := (htakes e).mp he
    rw [hrom] at ha
    exact ⟨top, htop, hagree.trans (ha.symm.mono (Nat.le_succ top)), h0,
      (ha top (Nat.lt_succ_self top)).trans hbit⟩
  · rw [hrom]
    obtain ⟨j, hj, hp, hje, hj1⟩ := Before.parts he hb
    -- nothing parts from the code behind the last conflict position
    obtain rfl | hm := List.mem_cons.mp ((hc.mem j).mpr ⟨hj, hp⟩)
    · exact Or.inl ((hje.trans hagree).succ (hj1.trans hbit.symm))
    · have hlt : j < top := List.rel_of_pairwise_cons hc.sorted hm
      exact Or.inr ⟨j, Nat.lt_succ_of_lt hlt, (hagree.symm.mono (Nat.le_of_lt hlt)).trans hje.symm,
        (hagree j hlt).symm.trans hp.1, hj1⟩
  · rw [hrom, hcon]
    refine ⟨(List.pairwise_cons.mp hc.sorted).2, fun j => ⟨fun hj => ?_, fun ⟨hj, hp⟩ => ?_⟩⟩
    · have hlt : j < top := List.rel_of_pairwise_cons hc.sorted hj
      exact ⟨Nat.lt_succ_of_lt hlt,
        ((hc.mem j).mp (List.mem_cons_of_mem top hj)).2.congr (hagree.mono hlt)⟩
    · obtain hlt | rfl := Nat.lt_succ_iff_lt_or_eq.mp hj
      · have hm := (hc.mem j).mpr ⟨hlt.trans htop, hp.congr (hagree.symm.mono hlt)⟩
        exact (List.mem_cons.mp hm).resolve_left (Nat.ne_of_lt hlt)
      · rw [hp.1] at hbit
        cases hbit
  · rw [hcon] at hf
    cases hf

theorem next_pass {top : Nat} {rest : List Nat} (hr : r ∈ devices)
    (hc : Conflicts devices r 64 (top :: rest)) :
    ∃ t, bits 0 64 ⟨r, top :: rest, false, devices⟩ = some t ∧
      Descent devices (Before r) 64 t := by
  have htop : top < 64 := ((hc.mem top).mp List.mem_cons_self).1
  obtain ⟨s, hs, hf⟩ := @Follow.bits devices r (top :: rest) top hr
    (fun j hj _ => ⟨top, rest, rfl, hj⟩)
  obtain ⟨t, ht, hd⟩ := hf.turn hr hc
  obtain ⟨u, hu, hd'⟩ := hd.bits htop
  have h64 : 64 = top + ((64 - (top + 1)) + 1) := by omega
  refine ⟨u, ?_, hd'⟩
  rw [h64, bits_append hs, bits, Nat.zero_add, List.range'_succ, List.foldlM_cons, ht]
  exact hu

/-- Once nothing comes after the code, a pass finds nothing. -/
theorem last_pass (hr : r ∈ devices) (hc : Conflicts devices r 64 []) :
    ∃ t, bits 0 64 ⟨r, [], false, devices⟩ = some t ∧ t.bFound = false := by
  have hno : ∀ j < 64, ¬ Parts devices r j := fun j hj hp => by
    simpa using (hc.mem j).mpr ⟨hj, hp⟩
  obtain ⟨t, ht, hf⟩ := @Follow.bits devices r [] 64 hr
    (fun j hj hp => absurd hp (hno j hj))
  refine ⟨t, ht, Bool.eq_false_iff.mpr fun hfound => ?_⟩
  obtain ⟨j, hj, hp⟩ := hf.found.mp hfound
  exact hno j hj hp

/-- The codes found, as far as there is room for them. -/
def collect (nMaxCount : Nat) (found l : List RomCode) : List RomCode :=
  l.foldl (fun found r => if found.length < nMaxCount then found ++ [r] else found) found

theorem collect_of_le {nMaxCount : Nat} {found l : List RomCode}
    (h : found.length + l.length ≤ nMaxCount) : collect nMaxCount found l = found ++ l := by
  induction l generalizing found with
  | nil => simp [collect]
  | cons r l ih =>
    rw [List.length_cons] at h
    have hr := @ih (found ++ [r]) (by simp; omega)
    rw [collect, List.foldl_cons, if_pos (by omega)]
    rw [collect] at hr
    rw [hr, List.append_assoc, List.singleton_append]

variable (h0 : 0 ∉ devices) (h1 : BitVec.allOnes 64 ∉ devices)
include h0 h1

/-- A pass that has come down is counted, and the search goes on from what it found. -/
theorem passes_of_descent {rom : RomCode} {C : RomCode → Prop} {t : Pass}
    (ht : bits 0 64 ⟨rom, com, false, devices⟩ = some t) (hd : Descent devices C 64 t)
    (nMaxCount fuel : Nat) (found : List RomCode) :
    passes devices nMaxCount (fuel + 1) rom com found =
      passes devices nMaxCount fuel t.pROMCode t.pComPos (collect nMaxCount found [t.pROMCode]) := by
  have hmem := hd.result.1
  have hand : andBytes t.pROMCode ≠ 0xFF := fun h =>
    h1 ((andBytes_eq_iff _).mp h ▸ hmem)
  have hor : orBytes t.pROMCode ≠ 0 := fun h => h0 ((orBytes_eq_iff _).mp h ▸ hmem)
  rw [passes, ht]
  dsimp only
  rw [if_pos ⟨hd.bFound h0, hand, hor⟩]
  rfl

/-- From a code with its conflict positions the search finds all that come after it. -/
theorem passes_after (hr : r ∈ devices) (hc : Conflicts devices r 64 com) :
    ∃ l, Enumeration.Lists devices.toFinset (Before r) l ∧ ∀ nMaxCount fuel found,
      Enumeration.after Before devices.toFinset r < fuel →
        passes devices nMaxCount fuel r com found = some (collect nMaxCount found l) := by
  induction hn : Enumeration.after Before devices.toFinset r using Nat.strong_induction_on
    generalizing r com with
  | _ n ih =>
    cases com with
    | nil =>
      obtain ⟨t, ht, hf⟩ := last_pass hr hc
      have hlast : Enumeration.IsLast Before devices.toFinset r := by
        intro d hd hb
        obtain ⟨j, hj, hp, -⟩ := Before.parts (List.mem_toFinset.mp hd) hb
        simpa using (hc.mem j).mpr ⟨hj, hp⟩
      refine ⟨[], hlast.lists, fun nMaxCount fuel found hlt => ?_⟩
      obtain ⟨fuel, rfl⟩ := Nat.exists_eq_add_of_lt hlt
      rw [passes, ht]
      dsimp only
      rw [if_neg (by simp [hf])]
      rfl
    | cons top rest =>
      obtain ⟨t, ht, hd⟩ := next_pass hr hc
      obtain ⟨hmem, hbefore, hleast⟩ := hd.result
      have hnext : Enumeration.IsNext Before devices.toFinset r t.pROMCode :=
        ⟨List.mem_toFinset.mpr hmem, hbefore,
          fun d hdd hb => hleast d (List.mem_toFinset.mp hdd) hb⟩
      obtain ⟨l, hl, hrun⟩ := ih _ (hn ▸ hnext.after_lt) hmem hd.com rfl
      refine ⟨t.pROMCode :: l, hl.cons_next hnext, fun nMaxCount fuel found hlt => ?_⟩
      obtain ⟨fuel, rfl⟩ := Nat.exists_eq_add_of_lt hlt
      have hfuel := hnext.after_lt
      rw [passes_of_descent h0 h1 ht hd, hrun nMaxCount _ _ (by omega)]
      rfl

theorem search_eq : ∃ l, Enumeration.Lists devices.toFinset (fun _ => True) l ∧
    ∀ nMaxCount fuel, devices.length < fuel →
      search devices nMaxCount fuel = some (collect nMaxCount [] l) := by
  by_cases hne : devices = []
  · subst hne
    refine ⟨[], ⟨List.nodup_nil, by simp⟩, fun nMaxCount fuel hlt => ?_⟩
    obtain ⟨fuel, rfl⟩ := Nat.exists_eq_add_of_lt hlt
    rw [search, passes, bits_nil]
    rfl
  · obtain ⟨t, ht, hd⟩ := first_pass hne
    obtain ⟨hmem, -, hleast⟩ := hd.result
    have hfirst : Enumeration.IsFirst Before devices.toFinset t.pROMCode :=
      ⟨List.mem_toFinset.mpr hmem, fun d hdd => hleast d (List.mem_toFinset.mp hdd) trivial⟩
    obtain ⟨l, hl, hrun⟩ := passes_after h0 h1 hmem hd.com
    refine ⟨t.pROMCode :: l, hl.cons_first hfirst, fun nMaxCount fuel hlt => ?_⟩
    obtain ⟨fuel, rfl⟩ := Nat.exists_eq_add_of_lt hlt
    have hcard := Enumeration.after_lt_card (r := Before) (List.mem_toFinset.mpr hmem)
    have hlen := List.toFinset_card_le devices
    rw [search, passes_of_descent h0 h1 ht hd, hrun nMaxCount _ _ (by omega)]
    rfl

end Passes

/-- With a pass for each device and one more the search ends, and with room for them it returns
each code on the bus once and nothing else. -/
theorem search_complete (devices : List RomCode) (nMaxCount : Nat) (hnodup : devices.Nodup)
    (hcodes : ∀ d ∈ devices, d ≠ 0 ∧ d ≠ BitVec.allOnes 64) :
    ∃ codes, (∀ fuel, devices.length < fuel → search devices nMaxCount fuel = some codes) ∧
      (devices.length ≤ nMaxCount → codes.Perm devices) := by
  have h0 : 0 ∉ devices := fun h => (hcodes _ h).1 rfl
  have h1 : BitVec.allOnes 64 ∉ devices := fun h => (hcodes _ h).2 rfl
  obtain ⟨l, hl, hrun⟩ := search_eq h0 h1
  have hperm : l.Perm devices :=
    (List.perm_ext_iff_of_nodup hl.nodup hnodup).mpr fun d => by simp [hl.mem]
  refine ⟨collect nMaxCount [] l, fun fuel hlt => hrun nMaxCount fuel hlt, fun hle => ?_⟩
  rw [collect_of_le (by simpa [hperm.length_eq] using hle)]
  exact hperm

/-- Three sensors of one family, two of which differ in their last bit only. -/
def threeSensors : List RomCode :=
  [0x2800000000000128#64, 0x2800000000000028#64, 0xA800000000000028#64]

theorem search_threeSensors : ∃ codes, search threeSensors 3 4 = some codes ∧
    codes.Perm threeSensors := by
  obtain ⟨codes, hrun, hperm⟩ :=
    search_complete threeSensors 3 (by decide) (by simp [threeSensors])
  exact ⟨codes, hrun 4 (by decide), hperm (by decide)⟩

end EdgeNode.OneWire
