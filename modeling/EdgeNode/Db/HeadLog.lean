import EdgeNode.Lib.Runs
import EdgeNode.Sys.Crc32
import Mathlib.Logic.Function.Basic

/-! The log of database heads in the first flash sector: one head a page, and the sector erased
before its first page is written again. -/

namespace EdgeNode.Db.HeadLog

def pagePerSector : Nat := 256
def dbTag : UInt32 := 0x5894a3f1

structure Head where
  ulCRC : UInt32
  ulTag : UInt32
  ulID : UInt32
  deriving DecidableEq

def zeroHead : Head := ⟨0, 0, 0⟩
def erasedHead : Head := ⟨0xFFFFFFFF, 0xFFFFFFFF, 0xFFFFFFFF⟩

/-- What a page holds once `new` is written over `old`: a write clears bits and sets none. -/
def overwrite (old new : Head) : Head :=
  ⟨old.ulCRC &&& new.ulCRC, old.ulTag &&& new.ulTag, old.ulID &&& new.ulID⟩

/-- What the device is doing: without power, at rest, or in one of the two accesses of
`FTE_DB_HEAD_write`. -/
inductive Phase where
  | off
  | idle
  | erase (xHead : Head)
  | program (xHead : Head)

/-- `pFlash->xHead.ulID` and the pages of the sector, and as ghosts the last head that was written
completely and the one that the last power loss cut short. -/
structure Device where
  phase : Phase
  ulID : UInt32
  pages : Nat → Head
  last : Option Head
  cut : Option Head

inductive Action where
  | init (bForce : Bool)
  | write
  | complete
  | powerLoss (torn : Nat → Head)

section Step

variable (crc : UInt32 → UInt32 → UInt32)

def Valid (x : Head) : Prop := x.ulTag = dbTag ∧ x.ulCRC = crc x.ulTag x.ulID

instance : DecidablePred (Valid crc) := fun _ => inferInstanceAs (Decidable (_ ∧ _))

/-- The head that `FTE_DB_HEAD_write` makes. -/
def headOf (ulID : UInt32) : Head := ⟨crc dbTag ulID, dbTag, ulID⟩

def keepNewer (xHead xTmpHead : Head) : Head :=
  if Valid crc xTmpHead ∧ xHead.ulID < xTmpHead.ulID then xTmpHead else xHead

def headRead (pages : Nat → Head) : Option Head :=
  let xHead := ((List.range pagePerSector).map pages).foldl (keepNewer crc) zeroHead
  if xHead.ulID = 0 then none else some xHead

def pageOf (ulID : UInt32) : Nat := ((ulID - 1) % 256).toNat

/-- `FTE_DB_HEAD_write` up to its first access to the device. -/
def headWrite (s : Device) : Device :=
  let ulID := s.ulID + 1
  let xHead := headOf crc ulID
  { s with ulID, phase := if pageOf ulID = 0 then .erase xHead else .program xHead }

def headInit (s : Device) : Device := headWrite crc { s with ulID := 0 }

def dbInit (bForce : Bool) (s : Device) : Device :=
  if bForce then headInit crc s
  else match headRead crc s.pages with
    | none => headInit crc s
    | some xHead => { s with ulID := xHead.ulID, phase := .idle }

/-- A page that a power loss left amid a write: as it was, as it was to be, or with some of the bits
to clear still set, and then it fails its check. -/
def Torn (old new x : Head) : Prop :=
  overwrite x (overwrite old new) = overwrite old new ∧
    (x = overwrite old new ∨ x = old ∨ ¬ Valid crc x)

instance (old new x : Head) : Decidable (Torn crc old new x) := inferInstanceAs (Decidable (_ ∧ _))

/-- Amid an erasure every page is as it was or fails its check. -/
def TornErase (pages torn : Nat → Head) : Prop :=
  ∀ i < pagePerSector, torn i = pages i ∨ ¬ Valid crc (torn i)

instance (pages torn : Nat → Head) : Decidable (TornErase crc pages torn) :=
  inferInstanceAs (Decidable (∀ i < pagePerSector, _ ∨ ¬ Valid crc (torn i)))

def written (xHead : Head) (s : Device) : Head := overwrite (s.pages (pageOf xHead.ulID)) xHead

def putPage (xHead x : Head) (s : Device) : Nat → Head :=
  Function.update s.pages (pageOf xHead.ulID) x

def step (s : Device) : Action → Option Device
  | .init bForce => match s.phase with
    | .off | .idle => some (dbInit crc bForce s)
    | _ => none
  | .write => match s.phase with
    | .idle => some (headWrite crc s)
    | _ => none
  | .complete => match s.phase with
    | .erase xHead => some { s with pages := fun _ => erasedHead, phase := .program xHead }
    | .program xHead => some { s with
        pages := putPage xHead (written xHead s) s, phase := .idle, last := some xHead }
    | _ => none
  | .powerLoss torn => match s.phase with
    | .off => none
    | .idle => some { s with phase := .off, cut := none }
    | .erase xHead =>
      if TornErase crc s.pages torn then
        some { s with phase := .off, pages := torn, cut := some xHead }
      else none
    | .program xHead =>
      let x := torn (pageOf xHead.ulID)
      if Torn crc (s.pages (pageOf xHead.ulID)) xHead x then
        some { s with
          phase := .off
          pages := putPage xHead x s
          last := if x = written xHead s then some xHead else s.last
          cut := some xHead }
      else none

/-- After a power loss the read finds the last head that was written, or the one being written. -/
def Recovers (s : Device) : Prop :=
  match s.phase with
  | .off => ∀ h ∈ s.last, ∃ r, headRead crc s.pages = some r ∧ (r = h ∨ s.cut = some r)
  | _ => True

/-- Once a head was written, the power stays on from the start of an erasure until the first page is
written again; and the identifiers do not run out. -/
def Allowed (s : Device) : Action → Prop
  | .init _ => True
  | .write => s.ulID ≠ 0xFFFFFFFF
  | .complete => True
  | .powerLoss _ => match s.phase with
    | .erase _ => s.last = none
    | .program xHead => s.last = none ∨ pageOf xHead.ulID ≠ 0
    | _ => True

instance (s : Device) : DecidablePred (Allowed s) := fun a => by
  cases a with
  | init => exact .isTrue trivial
  | write => exact inferInstanceAs (Decidable (s.ulID ≠ 0xFFFFFFFF))
  | complete => exact .isTrue trivial
  | powerLoss torn =>
    unfold Allowed
    cases s.phase <;> infer_instance

structure Start (s : Device) : Prop where
  phase : s.phase = .off
  last : s.last = none
  pages : ∀ i < pagePerSector, ¬ Valid crc (s.pages i)

variable {crc}

theorem valid_headOf (ulID : UInt32) : Valid crc (headOf crc ulID) := ⟨rfl, rfl⟩

theorem Valid.eq_headOf {x : Head} (h : Valid crc x) : x = headOf crc x.ulID := by
  obtain ⟨c, t, i⟩ := x
  obtain ⟨rfl, hc⟩ := h
  exact congrArg (fun c => (⟨c, dbTag, i⟩ : Head)) hc

theorem not_valid_erasedHead : ¬ Valid crc erasedHead := fun h => by
  have ht : (0xFFFFFFFF : UInt32) = dbTag := h.1
  revert ht
  decide

section Read

/-- The fold over the pages ends with the newest valid head of those it saw. -/
theorem foldl_keepNewer (l : List Head) (x : Head) :
    let r := l.foldl (keepNewer crc) x
    (r = x ∨ r ∈ l ∧ Valid crc r) ∧ x.ulID ≤ r.ulID ∧ ∀ p ∈ l, Valid crc p → p.ulID ≤ r.ulID := by
  induction l generalizing x with
  | nil => exact ⟨Or.inl rfl, UInt32.le_refl _, by simp⟩
  | cons p l ih =>
    obtain ⟨hr, hle, hall⟩ := ih (keepNewer crc x p)
    have hx : x.ulID ≤ (keepNewer crc x p).ulID := by
      rw [keepNewer]
      split
      next h => exact UInt32.le_of_lt h.2
      next => exact UInt32.le_refl _
    have hp : Valid crc p → p.ulID ≤ (keepNewer crc x p).ulID := by
      intro hv
      rw [keepNewer]
      split
      next => exact UInt32.le_refl _
      next h => exact UInt32.not_lt.mp fun hlt => h ⟨hv, hlt⟩
    have hk : keepNewer crc x p = x ∨ keepNewer crc x p = p ∧ Valid crc p := by
      rw [keepNewer]
      split
      next h => exact Or.inr ⟨rfl, h.1⟩
      next => exact Or.inl rfl
    refine ⟨?_, UInt32.le_trans hx hle, ?_⟩
    · rw [List.foldl_cons]
      obtain he | ⟨hm, hv⟩ := hr
      · rw [he]
        obtain hkx | ⟨hkp, hv⟩ := hk
        · exact Or.inl hkx
        · rw [hkp]
          exact Or.inr ⟨List.mem_cons_self, hv⟩
      · exact Or.inr ⟨List.mem_cons_of_mem p hm, hv⟩
    · intro q hq hv
      obtain rfl | hq := List.mem_cons.mp hq
      · exact UInt32.le_trans (hp hv) hle
      · exact hall q hq hv

variable {pages : Nat → Head}

theorem headRead_none (h : ∀ i < pagePerSector, ¬ Valid crc (pages i)) :
    headRead crc pages = none := by
  obtain ⟨hr, -, -⟩ := @foldl_keepNewer crc ((List.range pagePerSector).map pages) zeroHead
  obtain he | ⟨hm, hv⟩ := hr
  · rw [headRead, he]
    rfl
  · obtain ⟨i, hi, he⟩ := List.mem_map.mp hm
    rw [← he] at hv
    exact absurd hv (h i (List.mem_range.mp hi))

theorem headRead_some {n : UInt32} {i : Nat} (hn : n ≠ 0) (hi : i < pagePerSector)
    (hp : pages i = headOf crc n)
    (hle : ∀ j < pagePerSector, Valid crc (pages j) → (pages j).ulID ≤ n) :
    headRead crc pages = some (headOf crc n) := by
  obtain ⟨hr, -, hall⟩ :=
    @foldl_keepNewer crc ((List.range pagePerSector).map pages) zeroHead
  have hge := hall (headOf crc n)
    (List.mem_map.mpr ⟨i, List.mem_range.mpr hi, hp⟩) (valid_headOf n)
  have hpos : (0 : UInt32) < n := by
    rw [UInt32.pos_iff_ne_zero]
    exact hn
  rw [headRead]
  obtain he | ⟨hm, hv⟩ := hr
  · rw [he] at hge
    exact absurd (UInt32.lt_of_lt_of_le hpos hge) (UInt32.lt_irrefl 0)
  · obtain ⟨j, hj, he⟩ := List.mem_map.mp hm
    have hlej := hle j (List.mem_range.mp hj) (he ▸ hv)
    rw [he] at hlej
    have hid := UInt32.le_antisymm hlej hge
    rw [if_neg (by rw [hid]; exact hn), hv.eq_headOf, hid]

end Read

section Pages

theorem overwrite_erasedHead (x : Head) : overwrite erasedHead x = x := by
  have hmask : (0xFFFFFFFF : UInt32) = -1 := by decide
  simp [overwrite, erasedHead, hmask]

theorem pageOf_lt (n : UInt32) : pageOf n < pagePerSector := by
  rw [pageOf, UInt32.toNat_mod]
  exact Nat.mod_lt _ (by decide)

theorem pageOf_succ (n : UInt32) : pageOf (n + 1) = n.toNat % 256 := by
  rw [pageOf, UInt32.add_sub_cancel, UInt32.toNat_mod]
  rfl

theorem toNat_succ {n : UInt32} (h : n ≠ 0xFFFFFFFF) : (n + 1).toNat = n.toNat + 1 := by
  have hlt := n.toNat_lt
  have hne : n.toNat ≠ 2 ^ 32 - 1 := fun he => h (UInt32.toNat_inj.mp he)
  rw [UInt32.toNat_add, UInt32.toNat_one]
  omega

/-- The identifier that the page `j` is for, in the same round as the one after `n`. -/
def turnOf (n : UInt32) (j : Nat) : UInt32 := UInt32.ofNat (n.toNat / 256 * 256 + 1 + j)

/-- The sector after the head `n` was written: it is the newest valid one, and the pages behind it
still take the heads they are for. -/
structure Good (crc : UInt32 → UInt32 → UInt32) (n : UInt32) (pages : Nat → Head) : Prop where
  pos : n ≠ 0
  top : pages (pageOf n) = headOf crc n
  le : ∀ j < pagePerSector, Valid crc (pages j) → (pages j).ulID ≤ n
  room : n.toNat % 256 ≠ 0 → ∀ j, n.toNat % 256 ≤ j → j < pagePerSector →
    overwrite (pages j) (headOf crc (turnOf n j)) = headOf crc (turnOf n j)

variable {n : UInt32} {pages : Nat → Head} {x : Head}

theorem Good.read (h : Good crc n pages) : headRead crc pages = some (headOf crc n) :=
  headRead_some h.pos (pageOf_lt n) h.top h.le

theorem turnOf_self (h : n ≠ 0xFFFFFFFF) : turnOf n (n.toNat % 256) = n + 1 := by
  apply UInt32.toNat_inj.mp
  have hlt := (n + 1).toNat_lt
  have hs := toNat_succ h
  rw [turnOf, UInt32.toNat_ofNat', hs]
  omega

/-- The next head fits into its page. -/
theorem Good.fits (h : Good crc n pages) (hmax : n ≠ 0xFFFFFFFF) (hr : n.toNat % 256 ≠ 0) :
    overwrite (pages (pageOf (n + 1))) (headOf crc (n + 1)) = headOf crc (n + 1) := by
  have hlt : n.toNat % 256 < pagePerSector := Nat.mod_lt _ (by decide)
  have hf := h.room hr (n.toNat % 256) (Nat.le_refl _) hlt
  rwa [turnOf_self hmax, ← pageOf_succ] at hf

theorem Good.next (h : Good crc n pages) (hmax : n ≠ 0xFFFFFFFF) (hr : n.toNat % 256 ≠ 0) :
    Good crc (n + 1) (Function.update pages (pageOf (n + 1)) (headOf crc (n + 1))) := by
  have hs := toNat_succ hmax
  refine ⟨fun h0 => ?_, by simp, fun j hj hv => ?_, fun hr' j hj hj' => ?_⟩
  · rw [h0] at hs
    exact absurd hs.symm (Nat.succ_ne_zero _)
  · by_cases he : j = pageOf (n + 1)
    · simp [he, headOf]
    · rw [Function.update_of_ne he] at hv ⊢
      refine UInt32.le_trans (h.le j hj hv) ?_
      rw [UInt32.le_iff_toNat_le, hs]
      exact Nat.le_succ _
  · have hne : j ≠ pageOf (n + 1) := by
      rw [pageOf_succ]
      omega
    have ht : turnOf (n + 1) j = turnOf n j := by
      have hdiv : (n.toNat + 1) / 256 = n.toNat / 256 := by omega
      rw [turnOf, turnOf, hs, hdiv]
    rw [Function.update_of_ne hne, ht]
    exact h.room hr j (by omega) hj'

/-- A page torn in the write of the next head leaves the newest head, and still takes the next. -/
theorem Good.torn (h : Good crc n pages) (hmax : n ≠ 0xFFFFFFFF) (hr : n.toNat % 256 ≠ 0)
    (ht : Torn crc (pages (pageOf (n + 1))) (headOf crc (n + 1)) x)
    (hx : x ≠ overwrite (pages (pageOf (n + 1))) (headOf crc (n + 1))) :
    Good crc n (Function.update pages (pageOf (n + 1)) x) := by
  have hn : n.toNat ≠ 0 := fun h0 => h.pos (UInt32.toNat_inj.mp h0)
  have hne : pageOf n ≠ pageOf (n + 1) := by
    have hp : pageOf n = (n.toNat - 1) % 256 := by
      have hpred : n - 1 ≠ 0xFFFFFFFF := fun he => h.pos (by rw [← UInt32.sub_add_cancel n 1, he]; rfl)
      have hs := toNat_succ hpred
      rw [UInt32.sub_add_cancel] at hs
      rw [pageOf, UInt32.toNat_mod, hs]
      rfl
    rw [hp, pageOf_succ]
    omega
  obtain ⟨hbits, hcases⟩ := ht
  refine ⟨h.pos, ?_, fun j hj hv => ?_, fun _ j hj hj' => ?_⟩
  · rw [Function.update_of_ne hne]
    exact h.top
  · by_cases he : j = pageOf (n + 1)
    · subst he
      rw [Function.update_self] at hv ⊢
      obtain hw | rfl | hi := hcases
      · exact absurd hw hx
      · exact h.le _ hj hv
      · exact absurd hv hi
    · rw [Function.update_of_ne he] at hv ⊢
      exact h.le j hj hv
  · by_cases he : j = pageOf (n + 1)
    · have hj2 : j = n.toNat % 256 := he.trans (pageOf_succ n)
      rw [he, Function.update_self, ← he, hj2, turnOf_self hmax]
      rwa [h.fits hmax hr] at hbits
    · rw [Function.update_of_ne he]
      exact h.room hr j hj hj'

/-- The first head after an erasure. -/
theorem good_first (hn : n ≠ 0) (hp : pageOf n = 0) :
    Good crc n (Function.update (fun _ => erasedHead) (pageOf n) (headOf crc n)) := by
  refine ⟨hn, by simp, fun j _ hv => ?_, fun hr j hj _ => ?_⟩
  · by_cases he : j = pageOf n
    · simp [he, headOf]
    · rw [Function.update_of_ne he] at hv
      exact absurd hv not_valid_erasedHead
  · have hne : j ≠ pageOf n := by omega
    rw [Function.update_of_ne hne]
    exact overwrite_erasedHead _

end Pages

/-- What each phase relies on. -/
def Inv (crc : UInt32 → UInt32 → UInt32) (s : Device) : Prop :=
  match s.phase with
  | .off => match s.last with
    | none => ∀ i < pagePerSector, ¬ Valid crc (s.pages i)
    | some h => ∃ n, h = headOf crc n ∧ Good crc n s.pages
  | .idle => s.last = some (headOf crc s.ulID) ∧ Good crc s.ulID s.pages
  | .erase x => x = headOf crc s.ulID ∧ s.ulID ≠ 0 ∧ pageOf s.ulID = 0 ∧
      (s.last = none → ∀ i < pagePerSector, ¬ Valid crc (s.pages i))
  | .program x => x = headOf crc s.ulID ∧ s.ulID ≠ 0 ∧
      ((pageOf s.ulID = 0 ∧ s.pages = fun _ => erasedHead) ∨
        ∃ n, s.ulID = n + 1 ∧ n ≠ 0xFFFFFFFF ∧ n.toNat % 256 ≠ 0 ∧
          s.last = some (headOf crc n) ∧ Good crc n s.pages)

variable {s t : Device}

theorem Start.inv (h : Start crc s) : Inv crc s := by
  rw [Inv, h.phase, h.last]
  exact h.pages

theorem Inv.recovers (h : Inv crc s) : Recovers crc s := by
  rw [Recovers]
  cases hp : s.phase with
  | off =>
    intro x hx
    rw [Inv, hp, hx] at h
    obtain ⟨n, rfl, hg⟩ := h
    exact ⟨headOf crc n, hg.read, Or.inl rfl⟩
  | idle => trivial
  | erase x => trivial
  | program x => trivial

theorem inv_headInit (h : s.last = none → ∀ i < pagePerSector, ¬ Valid crc (s.pages i)) :
    Inv crc (headInit crc s) := by
  have hz : pageOf (0 + 1) = 0 := by decide
  have hp : (headInit crc s).phase = .erase (headOf crc (0 + 1)) := if_pos hz
  rw [Inv, hp]
  exact ⟨rfl, show (0 + 1 : UInt32) ≠ 0 by decide, hz, h⟩

theorem Inv.dbInit (h : Inv crc s) (hp : s.phase = .off ∨ s.phase = .idle) (bForce : Bool) :
    Inv crc (dbInit crc bForce s) := by
  have hread : (s.last = none ∧ ∀ i < pagePerSector, ¬ Valid crc (s.pages i)) ∨
      ∃ n, s.last = some (headOf crc n) ∧ Good crc n s.pages := by
    obtain hp | hp := hp
    · rw [Inv, hp] at h
      cases hl : s.last with
      | none =>
        rw [hl] at h
        exact Or.inl ⟨rfl, h⟩
      | some x =>
        rw [hl] at h
        obtain ⟨n, rfl, hg⟩ := h
        exact Or.inr ⟨n, rfl, hg⟩
    · rw [Inv, hp] at h
      exact Or.inr ⟨s.ulID, h⟩
  have hnew : s.last = none → ∀ i < pagePerSector, ¬ Valid crc (s.pages i) := by
    intro hl
    obtain ⟨-, hno⟩ | ⟨n, hn, -⟩ := hread
    · exact hno
    · rw [hn] at hl
      cases hl
  cases bForce with
  | true => exact inv_headInit hnew
  | false =>
    obtain ⟨-, hno⟩ | ⟨n, hn, hg⟩ := hread
    · have hr : HeadLog.dbInit crc false s = headInit crc s := by
        simp [HeadLog.dbInit, headRead_none hno]
      rw [hr]
      exact inv_headInit hnew
    · have hr : HeadLog.dbInit crc false s = { s with ulID := n, phase := .idle } := by
        simp [HeadLog.dbInit, hg.read, headOf]
      rw [hr]
      exact ⟨hn, hg⟩

theorem Inv.headWrite (h : Inv crc s) (hp : s.phase = .idle) (hmax : s.ulID ≠ 0xFFFFFFFF) :
    Inv crc (headWrite crc s) := by
  rw [Inv, hp] at h
  obtain ⟨hl, hg⟩ := h
  have hne : s.ulID + 1 ≠ 0 := fun h0 => by
    have hs := toNat_succ hmax
    rw [h0] at hs
    exact absurd hs.symm (Nat.succ_ne_zero _)
  rw [HeadLog.headWrite, Inv]
  by_cases hz : pageOf (s.ulID + 1) = 0
  · simp only [hz, if_true]
    exact ⟨trivial, hne, trivial, fun hn => by rw [hl] at hn; cases hn⟩
  · simp only [hz, if_false]
    rw [pageOf_succ] at hz
    exact ⟨trivial, hne, Or.inr ⟨s.ulID, rfl, hmax, hz, hl, hg⟩⟩

/-- What the sector holds once the page is programmed. -/
theorem good_written {x : Head} (h : Inv crc s) (hp : s.phase = .program x) :
    x = headOf crc s.ulID ∧ Good crc s.ulID (putPage x (written x s) s) := by
  rw [Inv, hp] at h
  obtain ⟨rfl, hne, ⟨hz, hpages⟩ | ⟨n, hn, hmax, hr, -, hg⟩⟩ := h
  · have hw : written (headOf crc s.ulID) s = headOf crc s.ulID := by
      rw [written, hpages]
      exact overwrite_erasedHead _
    rw [hw, putPage, hpages]
    exact ⟨rfl, good_first hne hz⟩
  · have hw : written (headOf crc s.ulID) s = headOf crc s.ulID := by
      rw [written, hn]
      exact hg.fits hmax hr
    rw [hw, putPage, hn]
    exact ⟨rfl, hg.next hmax hr⟩

theorem Inv.complete (h : Inv crc s) (hst : step crc s .complete = some t) : Inv crc t := by
  rw [step] at hst
  cases hp : s.phase with
  | off => simp [hp] at hst
  | idle => simp [hp] at hst
  | erase x =>
    simp only [hp, Option.some.injEq] at hst
    rw [Inv, hp] at h
    obtain ⟨hx, hne, hz, -⟩ := h
    subst hst
    exact ⟨hx, hne, Or.inl ⟨hz, rfl⟩⟩
  | program x =>
    simp only [hp, Option.some.injEq] at hst
    obtain ⟨hx, hg⟩ := good_written h hp
    subst hst
    exact ⟨congrArg some hx, hg⟩

theorem Inv.powerLoss {torn : Nat → Head} (h : Inv crc s) (ha : Allowed s (.powerLoss torn))
    (hst : step crc s (.powerLoss torn) = some t) : Inv crc t := by
  rw [step] at hst
  cases hp : s.phase with
  | off => simp [hp] at hst
  | idle =>
    simp only [hp, Option.some.injEq] at hst
    rw [Inv, hp] at h
    subst hst
    simp only [Inv, h.1]
    exact ⟨s.ulID, rfl, h.2⟩
  | erase x =>
    simp only [hp, Option.ite_none_right_eq_some, Option.some.injEq] at hst
    obtain ⟨ht, rfl⟩ := hst
    have hl : s.last = none := by simpa only [Allowed, hp] using ha
    rw [Inv, hp] at h
    obtain ⟨-, -, -, hno⟩ := h
    simp only [Inv, hl]
    intro i hi
    obtain he | hi' := ht i hi
    · rw [he]
      exact hno hl i hi
    · exact hi'
  | program x =>
    simp only [hp, Option.ite_none_right_eq_some, Option.some.injEq] at hst
    obtain ⟨ht, rfl⟩ := hst
    obtain ⟨hx, hg⟩ := good_written h hp
    by_cases hw : torn (pageOf x.ulID) = written x s
    · simp only [Inv, hw]
      exact ⟨s.ulID, hx, hg⟩
    have hl : s.last = none ∨ pageOf x.ulID ≠ 0 := by simpa only [Allowed, hp] using ha
    rw [Inv, hp] at h
    obtain ⟨rfl, hne, ⟨hz, hpages⟩ | ⟨n, hn, hmax, hr, hlast, hgn⟩⟩ := h
    · have hl' : s.last = none := hl.resolve_right fun hnz => hnz hz
      simp only [Inv, if_neg hw, hl', putPage, hpages]
      intro i hi
      by_cases he : i = pageOf (headOf crc s.ulID).ulID
      · subst he
        rw [Function.update_self]
        obtain he' | he' | hi' := ht.2
        · exact absurd he' hw
        · rw [he', hpages]
          exact not_valid_erasedHead
        · exact hi'
      · rw [Function.update_of_ne he]
        exact not_valid_erasedHead
    · simp only [Inv, if_neg hw, hlast, putPage]
      refine ⟨n, rfl, ?_⟩
      have hid : (headOf crc s.ulID).ulID = n + 1 := hn
      rw [written, hid, hn] at hw
      rw [hid, hn] at ht
      rw [hid]
      exact hgn.torn hmax hr ht hw

theorem Inv.step {a : Action} (h : Inv crc s) (ha : Allowed s a) (hst : step crc s a = some t) :
    Inv crc t := by
  cases a with
  | init bForce =>
    rw [HeadLog.step] at hst
    cases hp : s.phase with
    | off =>
      simp only [hp, Option.some.injEq] at hst
      exact hst ▸ h.dbInit (Or.inl hp) bForce
    | idle =>
      simp only [hp, Option.some.injEq] at hst
      exact hst ▸ h.dbInit (Or.inr hp) bForce
    | erase x => simp [hp] at hst
    | program x => simp [hp] at hst
  | write =>
    rw [HeadLog.step] at hst
    cases hp : s.phase with
    | idle =>
      simp only [hp, Option.some.injEq] at hst
      exact hst ▸ h.headWrite hp ha
    | off => simp [hp] at hst
    | erase x => simp [hp] at hst
    | program x => simp [hp] at hst
  | complete => exact h.complete hst
  | powerLoss torn => exact h.powerLoss ha hst

/-- Along allowed steps every power loss leaves a head that the read finds. -/
theorem recovers_of_allowed {u : Device} {acts : List Action} (hs : Start crc s)
    (h : ∀ v a, Runs.Takes (HeadLog.step crc) s acts v a → Allowed v a)
    (hu : Runs.Visits (HeadLog.step crc) s acts u) : Recovers crc u :=
  (Runs.inv_of_takes hs.inv (fun _ _ _ hv ha hst => hv.step ha hst) h hu).recovers

end Step

section Runs

/-- The CRC that a head carries. -/
def headCrc (ulTag ulID : UInt32) : UInt32 :=
  Sys.crc32 0 (Sys.wordBytes ulTag ++ Sys.wordBytes ulID)

def blank : Device := ⟨.off, 0, fun _ => erasedHead, none, none⟩

theorem start_blank : Start headCrc blank :=
  ⟨rfl, rfl, fun _ _ => not_valid_erasedHead⟩

/-- Two heads, and a power loss before the third one is in its page. -/
def cutThird : List Action :=
  [.init true, .complete, .complete, .write, .complete, .write, .powerLoss fun _ => erasedHead]

theorem cutThird_recovers : ∃ u, Runs.exec (step headCrc) cutThird blank = some u ∧
    u.last = some (headOf headCrc 2) ∧ Recovers headCrc u :=
  ⟨_, rfl, rfl, @recovers_of_allowed headCrc blank _ cutThird start_blank
    (Runs.takes_of_along (by decide +kernel)) ⟨cutThird, List.prefix_rfl, rfl⟩⟩

/-- A power loss between the erasure of a forced initialisation and its write. -/
def cutForced : List Action :=
  [.init true, .complete, .complete, .init true, .complete, .powerLoss fun _ => erasedHead]

theorem cutForced_fails : ¬ ∀ (s u : Device) (acts : List Action), Start headCrc s →
    Runs.Visits (step headCrc) s acts u → Recovers headCrc u := by
  intro h
  have hr := h blank _ cutForced start_blank ⟨cutForced, List.prefix_rfl, rfl⟩
  obtain ⟨r, hread, -⟩ := hr (headOf headCrc 1) rfl
  have hnone : headRead headCrc (Function.update (fun _ => erasedHead) (pageOf 1) erasedHead) =
      none := by
    rw [Function.update_eq_self_iff.mpr rfl]
    exact headRead_none fun _ _ => not_valid_erasedHead
  cases hnone.symm.trans hread

end Runs

end EdgeNode.Db.HeadLog
