import EdgeNode.Config.Slots

/-! Saves whose writes are all whole, and what the next boot reads of them. -/

namespace EdgeNode.Config

open Runs

section Saves

variable (crc : ∀ k, UInt32 → UInt32 → Body k → UInt32) (product : Product)

def finishPlan : List (Kind × Bool) → Device → Device
  | [], s => s
  | (k, second) :: rest, s => finishPlan rest (writeDone crc k second rest s)

def finish (s : Device) : Device := finishPlan crc s.plan s

/-- `FTE_CFG_init` with its save. -/
def startUp (s : Device) : Device := finish crc (boot crc product s)

theorem exec_finishPlan (p : List (Kind × Bool)) (s : Device) (hp : s.plan = p) :
    exec (step crc product) (List.replicate p.length (.write .done)) s =
      some (finishPlan crc p s) := by
  induction p generalizing s with
  | nil => rfl
  | cons w p ih =>
    have hstep : step crc product s (.write .done) = some (writeDone crc w.1 w.2 p s) := by
      simp only [step, hp]
    rw [List.length_cons, List.replicate_succ, exec, List.foldlM_cons, hstep]
    exact ih _ rfl

theorem finishPlan_plan (p : List (Kind × Bool)) (s : Device) (hp : s.plan = p) :
    (finishPlan crc p s).plan = [] ∧ (finishPlan crc p s).on = s.on := by
  induction p generalizing s with
  | nil => exact ⟨hp, rfl⟩
  | cons w p ih => exact ih (writeDone crc w.1 w.2 p s) rfl

/-- A pool with its banks and its flag. -/
structure Held (k : Kind) where
  page : Page (Body k)
  bank : Bool → Page (Body k)
  modified : Bool

def held (s : Device) (k : Kind) : Held k := ⟨s.ram.page k, s.banks k, s.ram.modified k⟩

theorem held_page (s : Device) (k : Kind) : (held s k).page = s.ram.page k := rfl

theorem held_bank (s : Device) (k : Kind) : (held s k).bank = s.banks k := rfl

theorem held_modified (s : Device) (k : Kind) : (held s k).modified = s.ram.modified k := rfl

def Held.write {k : Kind} (second : Bool) (h : Held k) : Held k :=
  let p := nextPage crc h.page
  { page := p
    bank := Function.update h.bank (bankOf p.nID) p
    modified := if second then false else h.modified }

def Held.save {k : Kind} (h : Held k) : Held k := (h.write crc false).write crc true

variable {crc} {product}

theorem held_writeDone (k : Kind) (second : Bool) (rest : List (Kind × Bool)) (s : Device) :
    held (writeDone crc k second rest s) k = (held s k).write crc second := by
  have hpage : (writeDone crc k second rest s).ram.page k = nextPage crc (s.ram.page k) := by
    simp [writeDone]
  have hbank : (writeDone crc k second rest s).banks k =
      Function.update (s.banks k) (bankOf (nextPage crc (s.ram.page k)).nID)
        (nextPage crc (s.ram.page k)) := by
    simp [writeDone, written, writeBank]
  have hmodified : (writeDone crc k second rest s).ram.modified k =
      if second then false else s.ram.modified k := by
    cases second <;> simp [writeDone, endWrite, advance]
  simp only [held, hpage, hbank, hmodified, Held.write]

theorem held_writeDone_other {j k : Kind} (hj : j ≠ k) (second : Bool) (rest : List (Kind × Bool))
    (s : Device) : held (writeDone crc k second rest s) j = held s j := by
  have hpage : (writeDone crc k second rest s).ram.page j = s.ram.page j := by
    simp [writeDone, advance_page_other hj]
  have hbank : (writeDone crc k second rest s).banks j = s.banks j := writeBank_kind hj _ _ _
  have hmodified : (writeDone crc k second rest s).ram.modified j = s.ram.modified j := by
    cases second <;> simp [writeDone, endWrite, advance, hj]
  simp only [held, hpage, hbank, hmodified]

theorem held_finishPlan {ks : List Kind} (hks : ks.Nodup) (flag : Kind → Bool) (k : Kind)
    (s : Device) :
    held (finishPlan crc (ks.flatMap fun j =>
      if flag j then [(j, false), (j, true)] else []) s) k =
      if k ∈ ks ∧ flag k = true then (held s k).save crc else held s k := by
  induction ks generalizing s with
  | nil => simp [finishPlan]
  | cons j ks ih =>
    obtain ⟨hj, hks⟩ := List.nodup_cons.mp hks
    rw [List.flatMap_cons]
    by_cases hf : flag j = true
    · rw [if_pos hf, List.cons_append, List.cons_append, List.nil_append, finishPlan, finishPlan,
        ih hks]
      by_cases hk : k = j
      · subst hk
        simp only [hj, hf, List.mem_cons, true_or, and_true, if_true, if_false]
        rw [held_writeDone, held_writeDone]
        rfl
      · simp only [List.mem_cons, hk, false_or]
        rw [held_writeDone_other hk, held_writeDone_other hk]
    · rw [if_neg hf, List.nil_append, ih hks]
      by_cases hk : k = j
      · subst hk
        simp [hf]
      · simp only [List.mem_cons, hk, false_or]

theorem held_finish {s : Device} {force : Bool} (hp : s.plan = savePlan force s.ram) (k : Kind) :
    held (finish crc s) k =
      if (force || s.ram.modified k) = true then (held s k).save crc else held s k := by
  have hks : kinds.Nodup := by decide
  rw [finish, hp, savePlan, held_finishPlan hks]
  simp only [mem_kinds, true_and]

theorem held_startUp (s : Device) (k : Kind) :
    held (startUp crc product s) k =
      if (initRam crc product s.banks).modified k = true then
        Held.save crc ⟨(initRam crc product s.banks).page k, s.banks k, true⟩
      else ⟨(initRam crc product s.banks).page k, s.banks k, false⟩ := by
  rw [startUp, held_finish (boot_plan s)]
  simp only [Bool.false_or, held, boot_ram, boot_banks]
  split
  · rename_i hm
    rw [hm]
  · rename_i hm
    rw [Bool.eq_false_iff.mpr hm]

variable (crc) in
theorem save_nID {k : Kind} {h : Held k} (hle : h.page.nID.toNat ≤ maxInt32) :
    (h.save crc).page.nID.toNat = h.page.nID.toNat + 2 := by
  have hid : (h.save crc).page.nID = h.page.nID + 1 + 1 := rfl
  rw [hid]
  simp only [UInt32.toNat_add, UInt32.toNat_one, maxInt32] at hle ⊢
  omega

theorem loadPool_congr {banks banks' : Banks} {k : Kind} (h : banks k = banks' k) :
    loadPool crc product banks k = loadPool crc product banks' k := by
  simp only [loadPool, h]

theorem loadPool_save {k : Kind} {h : Held k} {banks : Banks} (ht : h.page.ulTag = poolVersion)
    (hroom : h.page.nID.toNat + 2 ≤ maxInt32) (hb : banks k = (h.save crc).bank) :
    loadPool crc product banks k = (h.save crc).page := by
  have hfirst : (nextPage crc h.page).nID.toNat = h.page.nID.toNat + 1 := nextPage_nID crc (by omega)
  have hroom' : (nextPage crc h.page).nID.toNat < maxInt32 := by omega
  have hsecond : (h.save crc).page.nID.toNat = (nextPage crc h.page).nID.toNat + 1 :=
    nextPage_nID crc hroom'
  have hbank : banks k (bankOf (h.save crc).page.nID) = (h.save crc).page := by
    rw [hb]
    exact Function.update_self _ _ _
  have hne : bankOf (nextPage crc h.page).nID = !bankOf (h.save crc).page.nID := by
    rw [bankOf_eq, bankOf_eq, hsecond, TwoSlot.Store.parity_succ, Bool.not_not]
  have hother : banks k (!bankOf (h.save crc).page.nID) = nextPage crc h.page := by
    have hdiff : bankOf (nextPage crc h.page).nID ≠ bankOf (h.save crc).page.nID := by simp [hne]
    rw [hb, ← hne]
    exact (Function.update_of_ne hdiff _ _).trans (Function.update_self _ _ _)
  have hvalid : valid crc (h.save crc).page = true := valid_nextPage ht hroom'
  have hlt : (banks k (!bankOf (h.save crc).page.nID)).nID <
      (banks k (bankOf (h.save crc).page.nID)).nID := by
    rw [hother, hbank, UInt32.lt_iff_toNat_lt, hsecond]
    exact Nat.lt_succ_self _
  rw [loadPool_of_lt (by rw [hbank]; exact hvalid) hlt, hbank]

theorem loadPool_nID_eq (banks : Banks) (k : Kind) : (loadPool crc product banks k).nID.toNat =
    max (if valid crc (banks k false) then (banks k false).nID.toNat else 0)
      (if valid crc (banks k true) then (banks k true).nID.toNat else 0) := by
  rw [loadPool, loadBank_nID, loadBank_nID]
  simp only [zeroPage, UInt32.toNat_zero, Nat.zero_max]

theorem loadPool_le (banks : Banks) (k : Kind) :
    (loadPool crc product banks k).nID.toNat ≤ maxInt32 := by
  have hle : ∀ p : Page (Body k), (if valid crc p then p.nID.toNat else 0) ≤ maxInt32 := by
    intro p
    split
    · rename_i hv
      simp only [valid, Bool.and_eq_true, decide_eq_true_eq] at hv
      exact hv.2
    · exact Nat.zero_le _
  rw [loadPool_nID_eq]
  exact Nat.max_le.mpr ⟨hle _, hle _⟩

theorem loadPool_ne_zero {banks : Banks} {k : Kind} : (loadPool crc product banks k).nID ≠ 0 ↔
    ∃ b, valid crc (banks k b) = true ∧ (banks k b).nID ≠ 0 := by
  have hpos : ∀ p : Page (Body k), (if valid crc p then p.nID.toNat else 0) ≠ 0 ↔
      valid crc p = true ∧ p.nID ≠ 0 := by
    intro p
    rw [← UInt32.toNat_inj.ne, UInt32.toNat_zero]
    split
    · rename_i hv
      simp [hv]
    · rename_i hv
      simp [hv]
  rw [← UInt32.toNat_inj.ne, UInt32.toNat_zero, loadPool_nID_eq, Bool.exists_bool, ← hpos, ← hpos]
  omega

theorem loadPool_eq_zero {banks : Banks} {k : Kind} (h : (loadPool crc product banks k).nID = 0) :
    loadPool crc product banks k = zeroPage product k := by
  have hzero : ∀ {config p : Page (Body k)}, (loadBank crc config p).nID = 0 →
      loadBank crc config p = config := by
    intro config p hn
    unfold loadBank at hn ⊢
    split at hn
    · rename_i hv
      simp only [Bool.and_eq_true, decide_eq_true_eq, hn] at hv
      exact absurd hv.2 UInt32.not_lt_zero
    · rename_i hv
      rw [if_neg hv]
  rw [loadPool] at h ⊢
  have hsecond := hzero h
  rw [hsecond] at h ⊢
  exact hzero h

theorem loadPools_main (banks : Banks) :
    (loadPools crc product banks).page .main = loadPool crc product banks .main := by
  simp [loadPools]

theorem loadPools_page {banks : Banks} (h : (loadPool crc product banks .main).nID ≠ 0) (k : Kind) :
    (loadPools crc product banks).page k = loadPool crc product banks k :=
  if_pos (.inr h)

theorem agree_initRam {banks banks' : Banks} {k : Kind}
    (h : (loadPools crc product banks').page k = (loadPools crc product banks).page k) :
    Agree k (initRam crc product banks) (initRam crc product banks') :=
  agree_foldl_initDefaults product ⟨h, rfl⟩ kinds

theorem initRam_of_found {banks : Banks} {k : Kind}
    (h : ((loadPools crc product banks).page k).nID ≠ 0) :
    Agree k (loadPools crc product banks) (initRam crc product banks) :=
  agree_of_found product h kinds

theorem nID_of_modified {banks : Banks} {k : Kind}
    (h : (initRam crc product banks).modified k = true) :
    ((initRam crc product banks).page k).nID = 0 := by
  by_contra hn
  rw [(keeps_initRam banks).nID] at hn
  rw [(initRam_of_found hn).modified] at h
  cases h

end Saves

section StartUp

variable (crc : ∀ k, UInt32 → UInt32 → Body k → UInt32) (product : Product)

/-- The pool was found in no bank that the boot looked at and got no defaults, while there are
banks of it that the next boot will read. -/
def Stale (s : Device) (k : Kind) : Prop :=
  (s.ram.page k).nID = 0 ∧ ∃ b, valid crc (s.banks k b) = true ∧ (s.banks k b).nID ≠ 0

/-- The boot with its save leaves a pool unmarked as it has read it, or saves its defaults. -/
theorem startUp_cases (s : Device) (k : Kind) :
    ((initRam crc product s.banks).modified k = true ∧ held (startUp crc product s) k =
      Held.save crc ⟨(initRam crc product s.banks).page k, s.banks k, true⟩) ∨
    (initRam crc product s.banks).modified k = false ∧ held (startUp crc product s) k =
      ⟨(initRam crc product s.banks).page k, s.banks k, false⟩ := by
  rw [held_startUp]
  cases hm : (initRam crc product s.banks).modified k with
  | true => exact .inl ⟨rfl, if_pos rfl⟩
  | false => exact .inr ⟨rfl, if_neg Bool.false_ne_true⟩

theorem startUp_of_unmarked {s : Device} {k : Kind}
    (hm : (initRam crc product s.banks).modified k = false) :
    (startUp crc product s).ram.page k = (initRam crc product s.banks).page k := by
  rcases startUp_cases crc product s k with ⟨ht, -⟩ | ⟨-, h⟩
  · rw [hm] at ht
    cases ht
  · rw [← held_page, h]

theorem startUp_tag (s : Device) (k : Kind) :
    ((startUp crc product s).ram.page k).ulTag = poolVersion := by
  have htag : ((initRam crc product s.banks).page k).ulTag = poolVersion := initRam_tag s.banks k
  have hcases := startUp_cases crc product s k
  generalize initRam crc product s.banks = r at htag hcases
  rcases hcases with ⟨-, h⟩ | ⟨-, h⟩
  · rw [← held_page, h]
    exact htag
  · rw [← held_page, h]
    exact htag

theorem startUp_modified (s : Device) (k : Kind) :
    (startUp crc product s).ram.modified k = false := by
  rcases startUp_cases crc product s k with ⟨-, h⟩ | ⟨-, h⟩
  · rw [← held_modified, h]
    rfl
  · rw [← held_modified, h]

theorem initRam_nID_le (banks : Banks) (k : Kind) :
    ((initRam crc product banks).page k).nID.toNat ≤ maxInt32 := by
  rw [(keeps_initRam banks).nID]
  simp only [loadPools]
  split
  · exact loadPool_le banks k
  · exact Nat.zero_le _

theorem startUp_saved {s : Device} {k : Kind}
    (hm : (initRam crc product s.banks).modified k = true) :
    ((startUp crc product s).ram.page k).nID = 2 ∧
      loadPool crc product (startUp crc product s).banks k =
        (startUp crc product s).ram.page k := by
  have hheld : held (startUp crc product s) k =
      Held.save crc ⟨(initRam crc product s.banks).page k, s.banks k, true⟩ := by
    rw [held_startUp, if_pos hm]
  have hz := nID_of_modified hm
  have htag : ((initRam crc product s.banks).page k).ulTag = poolVersion := initRam_tag s.banks k
  generalize initRam crc product s.banks = r at hheld hz htag
  have hroom : (r.page k).nID.toNat + 2 ≤ maxInt32 := by
    rw [hz]
    decide
  have hid : (Held.save crc ⟨r.page k, s.banks k, true⟩).page.nID.toNat =
      (r.page k).nID.toNat + 2 := save_nID crc (Nat.le_of_add_right_le hroom)
  rw [← held_page, hheld]
  constructor
  · rw [← UInt32.toNat_inj, hid, hz]
    rfl
  · exact loadPool_save htag hroom (by rw [← held_bank, hheld])

theorem startUp_nID_le (s : Device) (k : Kind) :
    ((startUp crc product s).ram.page k).nID.toNat ≤ maxInt32 := by
  by_cases hm : (initRam crc product s.banks).modified k = true
  · rw [(startUp_saved crc product hm).1, maxInt32]
    decide
  · rcases startUp_cases crc product s k with ⟨ht, -⟩ | ⟨-, h⟩
    · exact absurd ht hm
    · rw [← held_page, h]
      dsimp only
      exact initRam_nID_le crc product s.banks k

theorem startUp_found (s : Device) :
    (loadPool crc product (startUp crc product s).banks .main).nID ≠ 0 := by
  rcases startUp_cases crc product s .main with ⟨hm, -⟩ | ⟨hm, h⟩
  · obtain ⟨hid, hload⟩ := startUp_saved crc product hm
    rw [hload, hid]
    decide
  · have hbank : (startUp crc product s).banks .main = s.banks .main := by
      rw [← held_bank, h]
    rw [loadPool_congr hbank, ← loadPools_main]
    intro hz
    rw [initRam_modified hz] at hm
    cases hm

/-- What a boot with its save has left is what the next boot reads, unless it is stale. -/
theorem agree_startUp {s : Device} {k : Kind} (hs : ¬ Stale crc (startUp crc product s) k) :
    Agree k (startUp crc product s).ram (initRam crc product (startUp crc product s).banks) := by
  have hload := loadPools_page (startUp_found crc product s) k
  rcases startUp_cases crc product s k with ⟨hm, -⟩ | ⟨hm, h⟩
  · obtain ⟨hid, hpage⟩ := startUp_saved crc product hm
    rw [hpage] at hload
    have hne : ((loadPools crc product (startUp crc product s).banks).page k).nID ≠ 0 := by
      rw [hload, hid]
      decide
    have hkept := initRam_of_found hne
    refine ⟨by rw [hkept.page, hload], ?_⟩
    rw [hkept.modified, startUp_modified]
    rfl
  · have hpage : (startUp crc product s).ram.page k = (initRam crc product s.banks).page k := by
      rw [← held_page, h]
    have hbank : (startUp crc product s).banks k = s.banks k := by
      rw [← held_bank, h]
    have hsame : (loadPools crc product (startUp crc product s).banks).page k =
        (loadPools crc product s.banks).page k := by
      rw [hload, loadPool_congr hbank]
      simp only [loadPools]
      split
      · rfl
      · -- the first boot did not look for the pool, and there is none
        rename_i hnot
        have hz : ((startUp crc product s).ram.page k).nID = 0 := by
          rw [hpage, (keeps_initRam s.banks).nID]
          simp only [loadPools, hnot, if_false]
          rfl
        rw [← loadPool_congr hbank]
        refine loadPool_eq_zero ?_
        by_contra hn
        exact hs ⟨hz, loadPool_ne_zero.mp hn⟩
    have hagree := agree_initRam hsame
    exact ⟨by rw [hagree.page, hpage], by rw [hagree.modified, hm, startUp_modified]⟩

end StartUp

end EdgeNode.Config
