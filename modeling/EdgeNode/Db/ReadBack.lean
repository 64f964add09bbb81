import EdgeNode.Lib.WrappedPage
import EdgeNode.Types

/-! Reads and writes of a range of a sector, over the commands of the flash device. -/

namespace EdgeNode.Db

open WrappedPage

section Device

/-- The M25P16: its bytes, and whether a write is enabled. -/
structure M25p16 where
  memory : Nat → UInt8
  enabled : Bool

/-- A page program clears the bits that are clear in the bytes laid into the page. -/
def programPage (memory : Nat → UInt8) (address : Nat) (bytes : List UInt8) (x : Nat) : UInt8 :=
  if x / 256 = address / 256 then
    memory x &&& lay 256 bytes (address % 256) (fun _ => 0xFF) (x % 256)
  else memory x

def addressOf (high middle low : UInt8) : Nat := (high.toNat * 256 + middle.toNat) * 256 + low.toNat

/-- The commands that `FTE_M25P16_write` sends, each with the bytes behind it. -/
def M25p16.execute (pCmd pBuff : List UInt8) (device : M25p16) : M25p16 :=
  match pCmd with
  | [0x06] => { device with enabled := true }
  | [0x04] => { device with enabled := false }
  | [0x02, high, middle, low] =>
    if device.enabled then
      ⟨programPage device.memory (addressOf high middle low) pBuff, false⟩
    else device
  | _ => device

/-- What the device answers to a read command. -/
def M25p16.answer (device : M25p16) (pCmd : List UInt8) (ulLen : Nat) : List UInt8 :=
  match pCmd with
  | [0x03, high, middle, low] =>
    (List.range ulLen).map fun k => device.memory (addressOf high middle low + k)
  | _ => []

end Device

section Driver

/-- How the transfers of a write end: which succeed, what a failed program leaves, and the status
that is read each time. -/
structure Transfers where
  enable : Bool
  program : Bool
  torn : M25p16
  status : Nat → Option UInt8
  disable : Bool

def command (opcode : UInt8) (ulAddress : UInt32) : List UInt8 :=
  [opcode, ((ulAddress >>> 16) &&& 0xFF).toUInt8, ((ulAddress >>> 8) &&& 0xFF).toUInt8,
    (ulAddress &&& 0xFF).toUInt8]

/-- The loop that reads the status until the write is over; without a value where a read fails. -/
def pollStatus (status : Nat → Option UInt8) (nCount : Nat) : Nat → Option Nat
  | 0 => some nCount
  | turns + 1 => do
    if (← status nCount) &&& 0x01 = 0 then return nCount
    pollStatus status (nCount + 1) turns

/-- `FTE_M25P16_read`. -/
def m25p16Read (device : M25p16) (succeeds : Bool) (ulAddress : UInt32) (ulLen : Nat) :
    Ret × List UInt8 :=
  if succeeds then (retOk, device.answer (command 0x03 ulAddress) ulLen) else (retError, [])

/-- `FTE_M25P16_write`. -/
def m25p16Write (transfers : Transfers) (device : M25p16) (ulAddress : UInt32)
    (pBuff : List UInt8) : Ret × M25p16 :=
  if transfers.enable then
    let device := device.execute [0x06] []
    if transfers.program then
      let device := device.execute (command 0x02 ulAddress) pBuff
      match pollStatus transfers.status 0 10 with
      | none => (retError, device)
      | some nCount =>
        if transfers.disable then
          (if nCount = 10 then retError else retOk, device.execute [0x04] [])
        else (retError, device)
    else (retError, transfers.torn)
  else (retError, device)

def sectorAddress (ulIndex ulOffset : UInt32) : UInt32 := (ulIndex + 1) * 65536 + ulOffset

/-- `FTE_DB_SECTOR_read`. -/
def sectorRead (device : M25p16) (succeeds : Bool) (ulIndex ulOffset : UInt32) (ulLen : Nat) :
    Ret × List UInt8 :=
  m25p16Read device succeeds (sectorAddress ulIndex ulOffset) ulLen

/-- `FTE_DB_SECTOR_write`. -/
def sectorWrite (transfers : Transfers) (device : M25p16) (ulIndex ulOffset : UInt32)
    (pBuff : List UInt8) : Ret × M25p16 :=
  m25p16Write transfers device (sectorAddress ulIndex ulOffset) pBuff

end Driver

section Ranges

/-- A range of a sector, as the two assertions admit it. -/
structure Range (ulIndex ulOffset : UInt32) (ulLen : Nat) : Prop where
  index : ulIndex.toNat < 31
  inside : ulOffset.toNat + ulLen ≤ 65536

def rangeStart (ulIndex ulOffset : UInt32) : Nat := (ulIndex.toNat + 1) * 65536 + ulOffset.toNat

def Erased (device : M25p16) (ulIndex ulOffset : UInt32) (ulLen : Nat) : Prop :=
  ∀ k < ulLen, device.memory (rangeStart ulIndex ulOffset + k) = 0xFF

/-- However the transfers end, a write that returns `FTE_RET_OK` is read back, and no byte outside
its range has changed. -/
def ReadsBack (device : M25p16) (ulIndex ulOffset : UInt32) (pBuff : List UInt8) : Prop :=
  ∀ transfers device', sectorWrite transfers device ulIndex ulOffset pBuff = (retOk, device') →
    sectorRead device' true ulIndex ulOffset pBuff.length = (retOk, pBuff) ∧
      ∀ x, (x < rangeStart ulIndex ulOffset ∨ rangeStart ulIndex ulOffset + pBuff.length ≤ x) →
        device'.memory x = device.memory x

end Ranges

section Pages

variable {memory : Nat → UInt8} {address : Nat} {bytes : List UInt8}

theorem and_ones (b : UInt8) : b &&& 0xFF = b := by
  apply UInt8.toBitVec_inj.mp
  exact BitVec.and_allOnes

theorem ones_and (b : UInt8) : 0xFF &&& b = b := by
  apply UInt8.toBitVec_inj.mp
  exact BitVec.allOnes_and

/-- The bytes behind the end of the page are not there, and those that others are laid over are
lost, unless they are erased bytes. -/
def Lost (address : Nat) (bytes : List UInt8) : Prop :=
  ∃ k, ∃ hk : k < bytes.length, (256 ≤ address % 256 + k ∨ k + 256 < bytes.length) ∧ bytes[k] ≠ 0xFF

theorem not_lost_of_page (h : address % 256 + bytes.length ≤ 256) : ¬ Lost address bytes := by
  rintro ⟨k, hk, hlost, -⟩
  omega

theorem programPage_behind {k : Nat} (h : 256 ≤ address % 256 + k) :
    programPage memory address bytes (address + k) = memory (address + k) := by
  apply if_neg
  omega

/-- What is laid over a byte comes from behind the end of the page. -/
theorem programPage_inside {k : Nat} (hk : k < bytes.length) (h : address % 256 + k < 256)
    (herased : memory (address + k) = 0xFF) :
    (programPage memory address bytes (address + k) = bytes[k] ∧ bytes.length ≤ k + 256) ∨
      ∃ j, ∃ hj : j < bytes.length, programPage memory address bytes (address + k) = bytes[j] ∧
        256 ≤ address % 256 + j ∧ k + 256 < bytes.length := by
  have hpage : (address + k) / 256 = address / 256 := by omega
  have hplace : (address + k) % 256 = address % 256 + k := by omega
  have hmod : address % 256 < 256 := Nat.mod_lt address (by decide)
  rw [programPage, if_pos hpage, hplace, herased, ones_and]
  rcases lay_cases bytes hmod (fun _ => 0xFF) (address % 256 + k) with
    ⟨-, hno⟩ | ⟨j, hj, heq, hp, hlast⟩
  · exact absurd (Nat.mod_eq_of_lt h) (hno k hk)
  · by_cases hjk : j = k
    · subst hjk
      exact Or.inl ⟨heq, hlast⟩
    · exact Or.inr ⟨j, hj, heq, by omega, by omega⟩

/-- A byte outside the range keeps its bits, or one from behind the end of the page comes to it. -/
theorem programPage_outside {x : Nat} (h : x < address ∨ address + bytes.length ≤ x) :
    programPage memory address bytes x = memory x ∨
      ∃ j, ∃ hj : j < bytes.length, programPage memory address bytes x = memory x &&& bytes[j] ∧
        256 ≤ address % 256 + j := by
  by_cases hpage : x / 256 = address / 256
  · have hmod : address % 256 < 256 := Nat.mod_lt address (by decide)
    rw [programPage, if_pos hpage]
    rcases lay_cases bytes hmod (fun _ => 0xFF) (x % 256) with ⟨heq, -⟩ | ⟨j, hj, heq, hp, -⟩
    · left
      rw [heq, and_ones]
    · exact Or.inr ⟨j, hj, by rw [heq], by omega⟩
  · exact Or.inl (if_neg hpage)

/-- An erased range holds the bytes programmed, and nothing else has changed, exactly when none of
them is lost. -/
theorem programPage_exact_iff (herased : ∀ k < bytes.length, memory (address + k) = 0xFF) :
    ((∀ k (hk : k < bytes.length), programPage memory address bytes (address + k) = bytes[k]) ∧
      ∀ x, (x < address ∨ address + bytes.length ≤ x) →
        programPage memory address bytes x = memory x) ↔ ¬ Lost address bytes := by
  constructor
  · rintro ⟨hback, -⟩ ⟨k, hk, hlost, hne⟩
    have hbehind (j : Nat) (hj : j < bytes.length) (h : 256 ≤ address % 256 + j) :
        bytes[j] = 0xFF := by
      rw [← hback j hj, programPage_behind h, herased j hj]
    apply hne
    rcases Nat.lt_or_ge (address % 256 + k) 256 with hlt | hge
    · rcases programPage_inside hk hlt (herased k hk) with ⟨-, hshort⟩ | ⟨j, hj, heq, hge, -⟩
      · omega
      · rw [← hback k hk, heq, hbehind j hj hge]
    · exact hbehind k hk hge
  · intro hnone
    have hones (j : Nat) (hj : j < bytes.length)
        (h : 256 ≤ address % 256 + j ∨ j + 256 < bytes.length) : bytes[j] = 0xFF := by
      by_contra hne
      exact hnone ⟨j, hj, h, hne⟩
    constructor
    · intro k hk
      rcases Nat.lt_or_ge (address % 256 + k) 256 with hlt | hge
      · rcases programPage_inside hk hlt (herased k hk) with ⟨heq, -⟩ | ⟨j, hj, heq, hge, hlong⟩
        · exact heq
        · rw [heq, hones j hj (Or.inl hge), hones k hk (Or.inr hlong)]
      · rw [programPage_behind hge, herased k hk, hones k hk (Or.inl hge)]
    · intro x hx
      rcases @programPage_outside memory _ _ x hx with heq | ⟨j, hj, heq, hge⟩
      · exact heq
      · rw [heq, hones j hj (Or.inl hge), and_ones]

end Pages

section Sectors

variable {ulIndex ulOffset : UInt32} {device device' : M25p16} {pBuff : List UInt8}

theorem byte_toNat (w : UInt32) : (w &&& 0xFF).toUInt8.toNat = w.toNat % 256 := by
  rw [UInt32.toNat_toUInt8, UInt32.toNat_and]
  change (w.toNat &&& (2 ^ 8 - 1)) % 256 = _
  rw [Nat.and_two_pow_sub_one_eq_mod]
  exact Nat.mod_mod _ _

/-- The device takes the address out of the command again. -/
theorem addressOf_command {w : UInt32} (h : w.toNat < 2 ^ 24) :
    addressOf ((w >>> 16) &&& 0xFF).toUInt8 ((w >>> 8) &&& 0xFF).toUInt8 (w &&& 0xFF).toUInt8 =
      w.toNat := by
  have h16 : (w >>> 16).toNat = w.toNat / 2 ^ 16 := by
    rw [UInt32.toNat_shiftRight, Nat.shiftRight_eq_div_pow]
    rfl
  have h8 : (w >>> 8).toNat = w.toNat / 2 ^ 8 := by
    rw [UInt32.toNat_shiftRight, Nat.shiftRight_eq_div_pow]
    rfl
  rw [addressOf, byte_toNat, byte_toNat, byte_toNat, h16, h8]
  omega

theorem Range.sectorAddress {ulLen : Nat} (h : Range ulIndex ulOffset ulLen) :
    (sectorAddress ulIndex ulOffset).toNat = rangeStart ulIndex ulOffset ∧
      rangeStart ulIndex ulOffset < 2 ^ 24 := by
  obtain ⟨hindex, hinside⟩ := h
  have hone : (1 : UInt32).toNat = 1 := rfl
  have hsize : (65536 : UInt32).toNat = 65536 := rfl
  rw [Db.sectorAddress, rangeStart, UInt32.toNat_add, UInt32.toNat_mul, UInt32.toNat_add, hone, hsize]
  omega

theorem sectorRead_eq (h : Range ulIndex ulOffset pBuff.length) :
    sectorRead device true ulIndex ulOffset pBuff.length = (retOk,
      (List.range pBuff.length).map fun k => device.memory (rangeStart ulIndex ulOffset + k)) := by
  obtain ⟨haddress, hlt⟩ := h.sectorAddress
  have hcommand := addressOf_command (by omega : (sectorAddress ulIndex ulOffset).toNat < 2 ^ 24)
  rw [haddress] at hcommand
  rw [← hcommand]
  rfl

/-- A write that returns `FTE_RET_OK` has programmed the page, and there is such a write. -/
theorem sectorWrite_ok (h : Range ulIndex ulOffset pBuff.length) :
    (∃ transfers, sectorWrite transfers device ulIndex ulOffset pBuff = (retOk, device')) ↔
      device' = ⟨programPage device.memory (rangeStart ulIndex ulOffset) pBuff, false⟩ := by
  obtain ⟨haddress, hlt⟩ := h.sectorAddress
  have hcommand := addressOf_command (by omega : (sectorAddress ulIndex ulOffset).toNat < 2 ^ 24)
  rw [haddress] at hcommand
  have hprogram : ((device.execute [0x06] []).execute
      (command 0x02 (sectorAddress ulIndex ulOffset)) pBuff).execute [0x04] [] =
      ⟨programPage device.memory (rangeStart ulIndex ulOffset) pBuff, false⟩ := by
    rw [← hcommand]
    rfl
  constructor
  · rintro ⟨transfers, hwrite⟩
    rw [sectorWrite, m25p16Write] at hwrite
    dsimp only at hwrite
    split at hwrite
    next =>
      split at hwrite
      next =>
        split at hwrite
        next => exact absurd (congrArg Prod.fst hwrite) retError_ne
        next =>
          split at hwrite
          next =>
            rw [← hprogram]
            exact (congrArg Prod.snd hwrite).symm
          next => exact absurd (congrArg Prod.fst hwrite) retError_ne
      next => exact absurd (congrArg Prod.fst hwrite) retError_ne
    next => exact absurd (congrArg Prod.fst hwrite) retError_ne
  · rintro rfl
    refine ⟨⟨true, true, device, fun _ => some 0, true⟩, ?_⟩
    rw [← hprogram]
    rfl

/-- A range that is erased is read back exactly when no byte of it is lost: the driver sends it as one
page program, whatever the page. -/
theorem readsBack_iff (h : Range ulIndex ulOffset pBuff.length)
    (herased : Erased device ulIndex ulOffset pBuff.length) :
    ReadsBack device ulIndex ulOffset pBuff ↔ ¬ Lost (rangeStart ulIndex ulOffset) pBuff := by
  rw [← programPage_exact_iff herased]
  have hread (memory : Nat → UInt8) (enabled : Bool) :
      sectorRead ⟨memory, enabled⟩ true ulIndex ulOffset pBuff.length = (retOk, pBuff) ↔
        ∀ k (hk : k < pBuff.length), memory (rangeStart ulIndex ulOffset + k) = pBuff[k] := by
    rw [sectorRead_eq h, Prod.mk.injEq, and_iff_right rfl, List.ext_getElem_iff]
    simp only [List.length_map, List.length_range, List.getElem_map, List.getElem_range, true_and]
    exact ⟨fun heq k hk => heq k hk hk, fun heq k hk _ => heq k hk⟩
  constructor
  · intro hback
    obtain ⟨transfers, hwrite⟩ := (@sectorWrite_ok _ _ device _ _ h).mpr rfl
    obtain ⟨hsame, hother⟩ := hback transfers _ hwrite
    exact ⟨(hread _ _).mp hsame, hother⟩
  · rintro ⟨hsame, hother⟩ transfers device' hwrite
    obtain rfl := (sectorWrite_ok h).mp ⟨transfers, hwrite⟩
    exact ⟨(hread _ _).mpr hsame, hother⟩

def erasedDevice : M25p16 := ⟨fun _ => 0xFF, false⟩

theorem readsBack_head : ReadsBack erasedDevice 0 65280 [1, 2, 3, 4, 5, 6, 7, 8] :=
  (readsBack_iff ⟨by decide, by decide⟩ fun _ _ => rfl).mpr (not_lost_of_page (by decide))

/-- The byte behind the end of the first page of a sector is programmed at its start. -/
theorem readsBack_across :
    ¬ ∀ (device : M25p16) (ulIndex ulOffset : UInt32) (pBuff : List UInt8),
      Range ulIndex ulOffset pBuff.length → Erased device ulIndex ulOffset pBuff.length →
        ReadsBack device ulIndex ulOffset pBuff := by
  intro hall
  have hback := hall erasedDevice 0 255 [1, 2] ⟨by decide, by decide⟩ fun _ _ => rfl
  have hwrite : sectorWrite ⟨true, true, erasedDevice, fun _ => some 0, true⟩ erasedDevice 0 255
      [1, 2] = (retOk, ⟨programPage (fun _ => 0xFF) 65791 [1, 2], false⟩) := rfl
  obtain ⟨hsame, -⟩ := hback _ _ hwrite
  exact absurd (congrArg Prod.snd hsame) (by decide)

end Sectors

end EdgeNode.Db
