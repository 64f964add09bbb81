import EdgeNode.Lib.Runs
import EdgeNode.Spi.Attach
import Mathlib.Data.Finset.Card

/-! When the channels are open and counted as their devices are attached, and an attach that fails
takes nothing from anybody. -/

namespace EdgeNode.Spi

open Runs

namespace Board

/-- The attached devices on a channel. -/
def users (b : Board) (xPort : Nat) : Finset SpiDevice := b.attached.filter (·.xPort = xPort)

/-- A channel is open while a device on it is attached, and counts those that are. -/
def Counted (b : Board) : Prop :=
  ∀ xPort, ((b.channel xPort).xFD = true ↔ (b.users xPort).Nonempty) ∧
    (b.channel xPort).nCount.toNat = (b.users xPort).card

def SameOwners (b b' : Board) : Prop := b'.channel = b.channel ∧ b'.pin = b.pin

section Conditions

variable (k : BoardConfig) (b : Board) (pSPI : SpiDevice) (c : AttachCalls)

/-- The driver's file opens, and takes its settings. -/
def Opens : Prop := c.fopen = true ∧ c.lock = true ∧ ∀ i, c.ioctl i = true

/-- The device is not attached, and the channel is open and can be counted once more, or it opens; and
the chip select is there. -/
def SpiServed : Prop :=
  pSPI ∉ b.attached ∧
    (if (b.channel pSPI.xPort).xFD then (b.channel pSPI.xPort).nCount ≠ 0xFFFFFFFF else Opens c) ∧
    k.lwgpio pSPI.xCSGPIO = true ∧ c.lwgpioInit pSPI.xCSGPIO = true

/-- The channel is closed and does not open, and the chip select of an earlier attach is nobody's. -/
def SpiClosed : Prop :=
  (b.channel pSPI.xPort).xFD = false ∧ ¬ Opens c ∧ ∀ pin ∈ b.pCSPort pSPI, b.pin pin = 0

/-- Only the chip select fails, and that of a channel that was opened for it. -/
def SpiRefused : Prop :=
  (b.channel pSPI.xPort).xFD = false ∧ Opens c ∧ k.lwgpio pSPI.xCSGPIO = true ∧
    c.lwgpioInit pSPI.xCSGPIO = false

/-- Both pins can be had, and the device; or the device is refused and all pins are nobody's. -/
def ChipAllowed (pin₁ pin₂ : UInt32) : Prop :=
  c.lwgpioInit pin₁ = true ∧ c.lwgpioInit pin₂ = true ∧
    (b.SpiServed k pSPI c ∨
      b.SpiRefused k pSPI c ∧ b.pin pSPI.xCSGPIO = 0 ∧ b.pin pin₁ = 0 ∧ b.pin pin₂ = 0)

/-- An object that has its status gets the device, and nothing fails behind that but the memory for the
value, or it is refused the device; one without a status does not get it. -/
def RtdAllowed (pObj nDevID : UInt32) (value : Bool) (init : Ret) : Prop :=
  match (do k.spi (← k.ad7785 nDevID) : Option SpiDevice) with
  | none => b.pStatus pObj = false
  | some pSPI =>
    if b.pStatus pObj then
      b.SpiServed k pSPI c ∧ (if value then init = retOk else b.pin pSPI.xCSGPIO = 0) ∨
        b.SpiRefused k pSPI c ∧ b.pin pSPI.xCSGPIO = 0
    else b.SpiClosed pSPI c

instance : Decidable (Opens c) := inferInstanceAs (Decidable (_ ∧ _ ∧ _))

instance : Decidable (b.SpiServed k pSPI c) := inferInstanceAs (Decidable (_ ∧ ite _ _ _ ∧ _ ∧ _))

instance : Decidable (b.SpiClosed pSPI c) := inferInstanceAs (Decidable (_ ∧ _ ∧ _))

instance : Decidable (b.SpiRefused k pSPI c) := inferInstanceAs (Decidable (_ ∧ _ ∧ _ ∧ _))

instance (pin₁ pin₂ : UInt32) : Decidable (b.ChipAllowed k pSPI c pin₁ pin₂) :=
  inferInstanceAs (Decidable (_ ∧ _ ∧ (_ ∨ _ ∧ _ ∧ _ ∧ _)))

instance (pObj nDevID : UInt32) (value : Bool) (init : Ret) :
    Decidable (b.RtdAllowed k c pObj nDevID value init) := by
  unfold RtdAllowed
  split <;> infer_instance

end Conditions

def FailsClean (b : Board) (r : Option Ret × Board) : Prop :=
  r.1 ≠ some retOk → r.1 ≠ none ∧ b.SameOwners r.2

/-- Beyond the counts, an attached device has its chip select. -/
structure Inv (b : Board) : Prop where
  counted : b.Counted
  selected : ∀ s ∈ b.attached, b.pCSPort s = some s.xCSGPIO

section Spi

variable {k : BoardConfig} {b : Board} {pSPI : SpiDevice} {c : AttachCalls} {nParent : UInt32}

theorem Inv.closed (h : b.Inv) (hclosed : (b.channel pSPI.xPort).xFD = false) :
    b.channel pSPI.xPort = ⟨false, 0⟩ ∧ pSPI ∉ b.attached := by
  obtain ⟨hopen, hcount⟩ := h.counted pSPI.xPort
  have hnone : b.users pSPI.xPort = ∅ :=
    Finset.not_nonempty_iff_eq_empty.mp fun hu => absurd (hopen.mpr hu) (by simp [hclosed])
  have hzero : (b.channel pSPI.xPort).nCount = 0 := by
    rw [← UInt32.toNat_inj, hcount, hnone]
    rfl
  constructor
  · cases hc : b.channel pSPI.xPort with
    | mk xFD nCount =>
      rw [hc] at hclosed hzero
      cases hclosed
      cases hzero
      rfl
  · intro hmem
    have hself : pSPI ∈ b.users pSPI.xPort := Finset.mem_filter.mpr ⟨hmem, rfl⟩
    rw [hnone] at hself
    exact absurd hself (Finset.notMem_empty _)

@[simp] theorem withChannel_self (b : Board) (xPort : Nat) :
    b.withChannel xPort (b.channel xPort) = b := by
  rw [withChannel, Function.update_eq_self]

@[simp] theorem withChannel_withChannel (b : Board) (xPort : Nat) (x y : SpiChannel) :
    (b.withChannel xPort x).withChannel xPort y = b.withChannel xPort y := by
  simp [withChannel]

@[simp] theorem channel_withChannel (b : Board) (xPort : Nat) (x : SpiChannel) :
    (b.withChannel xPort x).channel xPort = x := Function.update_self ..

theorem withPin_zero {pin : UInt32} (h : b.pin pin = 0) : b.withPin pin 0 = b := by
  rw [withPin, ← h, Function.update_eq_self]

theorem lwgpioDetach_eq (b : Board) (pin : UInt32) : (b.lwgpioDetach pin).2 = b.withPin pin 0 := by
  rw [lwgpioDetach]
  split
  next => rfl
  next hzero => exact (withPin_zero (not_not.mp hzero)).symm

theorem spiError_eq {pin : UInt32} (h : b.pCSPort pSPI = some pin) : b.spiError pSPI =
    (retError, (b.withChannel pSPI.xPort { b.channel pSPI.xPort with xFD := false }).withPin pin 0) := by
  have h : (b.withChannel pSPI.xPort { b.channel pSPI.xPort with xFD := false }).pCSPort pSPI =
      some pin := h
  rw [spiError]
  dsimp only
  rw [h]
  dsimp only
  rw [lwgpioDetach_eq]

/-- With the channel open, the chip select decides. -/
theorem spiAttach_opened {b' : Board} (h : b.openChannel pSPI c = (true, b'))
    (hcs : k.lwgpio pSPI.xCSGPIO = true) : b.spiAttach k pSPI nParent c =
      if c.lwgpioInit pSPI.xCSGPIO then
        let b' := (b'.withCSPort pSPI (some pSPI.xCSGPIO)).withPin pSPI.xCSGPIO pSPI.nID
        (retOk, { b'.withOwner pSPI nParent with attached := insert pSPI b'.attached })
      else (b'.withCSPort pSPI (some pSPI.xCSGPIO)).spiError pSPI := by
  rw [spiAttach, h]
  dsimp only
  rw [lwgpioGet, if_pos hcs]
  have hport : (b'.withCSPort pSPI (some pSPI.xCSGPIO)).pCSPort pSPI = some pSPI.xCSGPIO :=
    Function.update_self ..
  rw [hport]
  dsimp only [lwgpioAttach]
  split
  · rfl
  · rfl

/-- The board behind an attach that served. -/
def served (b : Board) (pSPI : SpiDevice) (nParent : UInt32) : Board :=
  let b := ((b.withChannel pSPI.xPort ⟨true, (b.channel pSPI.xPort).nCount + 1⟩).withCSPort pSPI
    (some pSPI.xCSGPIO)).withPin pSPI.xCSGPIO pSPI.nID
  { b.withOwner pSPI nParent with attached := insert pSPI b.attached }

theorem spiAttach_served (h : b.Inv) (hs : b.SpiServed k pSPI c) :
    b.spiAttach k pSPI nParent c = (retOk, b.served pSPI nParent) := by
  obtain ⟨-, hopen, hcs, hinit⟩ := hs
  have hchannel : b.openChannel pSPI c =
      (true, b.withChannel pSPI.xPort ⟨true, (b.channel pSPI.xPort).nCount + 1⟩) := by
    rw [openChannel]
    cases hfd : (b.channel pSPI.xPort).xFD with
    | true => rfl
    | false =>
      rw [hfd, if_neg (by simp)] at hopen
      obtain ⟨hf, hl⟩ := hopen
      rw [if_neg (by simp), if_pos hf, if_pos hl, (h.closed hfd).1]
      rfl
  rw [spiAttach_opened hchannel hcs, if_pos hinit]
  rfl

/-- The error path closes what was opened in vain. -/
theorem spiError_closed (hclosed : (b.channel pSPI.xPort).xFD = false)
    (hcs : ∀ pin ∈ b.pCSPort pSPI, b.pin pin = 0) (xFD : Bool) :
    (b.withChannel pSPI.xPort { b.channel pSPI.xPort with xFD }).spiError pSPI = (retError, b) := by
  have hsame : (⟨false, (b.channel pSPI.xPort).nCount⟩ : SpiChannel) = b.channel pSPI.xPort := by
    rw [← hclosed]
  rw [spiError]
  simp only [channel_withChannel, withChannel_withChannel, hsame, withChannel_self]
  split
  next pCSPort heq => rw [lwgpioDetach_eq, withPin_zero (hcs pCSPort heq)]
  next => rfl

theorem spiAttach_closed (h : b.SpiClosed pSPI c) :
    b.spiAttach k pSPI nParent c = (retError, b) := by
  obtain ⟨hclosed, hopens, hcs⟩ := h
  rw [spiAttach, openChannel, hclosed, if_neg (by simp)]
  by_cases hf : c.fopen = true
  · rw [if_pos hf, if_neg fun hl => hopens ⟨hf, hl⟩]
    exact spiError_closed hclosed hcs true
  · have herror := spiError_closed hclosed hcs false
    rw [← hclosed, withChannel_self] at herror
    rw [if_neg hf]
    exact herror

/-- The board behind an attach whose chip select was refused: the count stays. -/
def refused (b : Board) (pSPI : SpiDevice) : Board :=
  ((b.withChannel pSPI.xPort ⟨false, 1⟩).withCSPort pSPI (some pSPI.xCSGPIO)).withPin pSPI.xCSGPIO 0

theorem spiAttach_refused (h : b.SpiRefused k pSPI c) :
    b.spiAttach k pSPI nParent c = (retError, b.refused pSPI) := by
  obtain ⟨hclosed, ⟨hf, hl⟩, hcs, hinit⟩ := h
  have hchannel : b.openChannel pSPI c = (true, b.withChannel pSPI.xPort ⟨true, 1⟩) := by
    rw [openChannel, hclosed, if_neg (by simp), if_pos hf, if_pos hl]
  rw [spiAttach_opened hchannel hcs, hinit, if_neg (by simp), spiError_eq (Function.update_self ..)]
  simp [refused, withChannel, withCSPort]

/-- The board behind the detach of a device that has its chip select. -/
def detached (b : Board) (pSPI : SpiDevice) : Board :=
  let channel := b.channel pSPI.xPort
  let b := (b.withChannel pSPI.xPort
    (if channel.nCount = 1 then ⟨false, 0⟩ else { channel with nCount := channel.nCount - 1 })).withPin
      pSPI.xCSGPIO 0
  { b.withOwner pSPI 0 with attached := b.attached.erase pSPI }

theorem spiDetach_eq (h : b.pCSPort pSPI = some pSPI.xCSGPIO) :
    b.spiDetach pSPI = (some retOk, b.detached pSPI) := by
  rw [spiDetach]
  dsimp only
  have h (x : SpiChannel) : (b.withChannel pSPI.xPort x).pCSPort pSPI = some pSPI.xCSGPIO := h
  rw [h]
  dsimp only
  rw [lwgpioDetach_eq]
  rfl

theorem users_of_ne {s : SpiDevice} {xPort : Nat} (hne : xPort ≠ s.xPort) :
    (insert s b.attached).filter (·.xPort = xPort) = b.users xPort ∧
      (b.attached.erase s).filter (·.xPort = xPort) = b.users xPort := by
  constructor
  · rw [Finset.filter_insert, if_neg (Ne.symm hne), users]
  · rw [Finset.filter_erase, Finset.erase_eq_of_notMem fun hs => hne (Finset.mem_filter.mp hs).2.symm,
      users]

theorem SpiServed.count (h : b.Inv) (hs : b.SpiServed k pSPI c) :
    ((b.channel pSPI.xPort).nCount + 1).toNat = (b.channel pSPI.xPort).nCount.toNat + 1 := by
  have hmax : (b.channel pSPI.xPort).nCount ≠ 0xFFFFFFFF := by
    have hfirst := hs.2.1
    split at hfirst
    next => exact hfirst
    next hclosed =>
      rw [(h.closed (Bool.not_eq_true _ ▸ hclosed)).1]
      decide
  have hlt : (b.channel pSPI.xPort).nCount.toNat ≠ 0xFFFFFFFF := fun heq =>
    hmax (UInt32.toNat_inj.mp heq)
  have hword := (b.channel pSPI.xPort).nCount.toNat_lt
  rw [UInt32.toNat_add]
  change (_ + 1) % 2 ^ 32 = _
  omega

theorem inv_served (h : b.Inv) (hs : b.SpiServed k pSPI c) : (b.served pSPI nParent).Inv := by
  constructor
  · intro xPort
    by_cases hp : xPort = pSPI.xPort
    · subst hp
      have hchannel : (b.served pSPI nParent).channel pSPI.xPort =
          ⟨true, (b.channel pSPI.xPort).nCount + 1⟩ := Function.update_self ..
      have husers : (b.served pSPI nParent).users pSPI.xPort = insert pSPI (b.users pSPI.xPort) := by
        rw [users, served, Finset.filter_insert, if_pos rfl]
        rfl
      have hnew : pSPI ∉ b.users pSPI.xPort := fun hmem => hs.1 (Finset.mem_filter.mp hmem).1
      rw [hchannel, husers, hs.count h, (h.counted pSPI.xPort).2, Finset.card_insert_of_notMem hnew]
      simp
    · have hchannel : (b.served pSPI nParent).channel xPort = b.channel xPort :=
        Function.update_of_ne hp _ _
      have husers : (b.served pSPI nParent).users xPort = b.users xPort := (users_of_ne hp).1
      rw [hchannel, husers]
      exact h.counted xPort
  · intro s hs
    by_cases hne : s = pSPI
    · rw [hne]
      exact Function.update_self ..
    · exact (Function.update_of_ne hne _ _).trans
        (h.selected s ((Finset.mem_insert.mp hs).resolve_left hne))

theorem inv_detached (h : b.Inv) (hmem : pSPI ∈ b.attached) : (b.detached pSPI).Inv := by
  constructor
  · intro xPort
    by_cases hp : xPort = pSPI.xPort
    · subst hp
      have hself : pSPI ∈ b.users pSPI.xPort := Finset.mem_filter.mpr ⟨hmem, rfl⟩
      obtain ⟨hopen, hcount⟩ := h.counted pSPI.xPort
      have husers : (b.detached pSPI).users pSPI.xPort = (b.users pSPI.xPort).erase pSPI := by
        rw [users, detached, Finset.filter_erase]
        rfl
      have hcard := Finset.card_erase_of_mem hself
      have hchannel : (b.detached pSPI).channel pSPI.xPort =
          if (b.channel pSPI.xPort).nCount = 1 then ⟨false, 0⟩
          else { b.channel pSPI.xPort with nCount := (b.channel pSPI.xPort).nCount - 1 } :=
        Function.update_self ..
      rw [hchannel, husers, ← Finset.card_pos, hcard, ← hcount]
      have hpos : 0 < (b.channel pSPI.xPort).nCount.toNat := hcount ▸ Finset.card_pos.mpr ⟨_, hself⟩
      split
      next hone =>
        rw [hone]
        decide
      next hmore =>
        have hne : (b.channel pSPI.xPort).nCount.toNat ≠ 1 := fun heq =>
          hmore (UInt32.toNat_inj.mp heq)
        have hle : (1 : UInt32) ≤ (b.channel pSPI.xPort).nCount := UInt32.le_iff_toNat_le.mpr hpos
        dsimp only
        rw [hopen.mpr ⟨_, hself⟩, UInt32.toNat_sub_of_le _ _ hle]
        change (_ ↔ _) ∧ _ - 1 = _ - 1
        exact ⟨⟨fun _ => by omega, fun _ => rfl⟩, rfl⟩
    · have hchannel : (b.detached pSPI).channel xPort = b.channel xPort :=
        Function.update_of_ne hp _ _
      have husers : (b.detached pSPI).users xPort = b.users xPort := (users_of_ne hp).2
      rw [hchannel, husers]
      exact h.counted xPort
  · intro s hs
    exact h.selected s (Finset.mem_of_mem_erase hs)

/-- The board behind a device that came and went. -/
def restored (b : Board) (pSPI : SpiDevice) : Board :=
  ((b.withCSPort pSPI (some pSPI.xCSGPIO)).withPin pSPI.xCSGPIO 0).withOwner pSPI 0

theorem detached_served (h : b.Inv) (hs : b.SpiServed k pSPI c) :
    (b.served pSPI nParent).detached pSPI = b.restored pSPI := by
  have hchannel : (if (b.channel pSPI.xPort).nCount + 1 = 1 then ⟨false, 0⟩
      else ⟨true, (b.channel pSPI.xPort).nCount + 1 - 1⟩) = b.channel pSPI.xPort := by
    cases hfd : (b.channel pSPI.xPort).xFD with
    | false =>
      rw [(h.closed hfd).1]
      rfl
    | true =>
      obtain ⟨hopen, hcount⟩ := h.counted pSPI.xPort
      have hpos := Finset.card_pos.mpr (hopen.mp hfd)
      have hsucc := hs.count h
      have hmore : (b.channel pSPI.xPort).nCount + 1 ≠ 1 := fun heq => by
        rw [heq] at hsucc
        change 1 = _ + 1 at hsucc
        omega
      rw [if_neg hmore, UInt32.add_sub_cancel, ← hfd]
  have hself : (b.served pSPI nParent).channel pSPI.xPort =
      ⟨true, (b.channel pSPI.xPort).nCount + 1⟩ := Function.update_self ..
  rw [detached, hself]
  dsimp only
  rw [hchannel]
  simp [served, restored, withChannel, withCSPort, withPin, withOwner, Finset.erase_insert hs.1]

theorem detached_refused (h : b.Inv) (hs : b.SpiRefused k pSPI c) :
    (b.refused pSPI).detached pSPI = b.restored pSPI := by
  obtain ⟨hchannel, hmem⟩ := h.closed hs.1
  have hself : (b.refused pSPI).channel pSPI.xPort = ⟨false, 1⟩ := Function.update_self ..
  rw [detached, hself]
  dsimp only
  rw [if_pos rfl, ← hchannel]
  simp [refused, restored, withChannel, withCSPort, withPin, withOwner, Finset.erase_eq_of_notMem hmem]

theorem Inv.of_eq {b' : Board} (h : b.Inv) (hchannel : b'.channel = b.channel)
    (hattached : b'.attached = b.attached) (hport : b'.pCSPort = b.pCSPort) : b'.Inv := by
  constructor
  · intro xPort
    rw [users, hchannel, hattached]
    exact h.counted xPort
  · intro s hs
    rw [hattached] at hs
    rw [hport]
    exact h.selected s hs

theorem inv_restored (h : b.Inv) : (b.restored pSPI).Inv := by
  refine ⟨h.counted, fun s hs => ?_⟩
  by_cases hne : s = pSPI
  · rw [hne]
    exact Function.update_self ..
  · exact (Function.update_of_ne hne _ _).trans (h.selected s hs)

theorem sameOwners_restored (hcs : b.pin pSPI.xCSGPIO = 0) : b.SameOwners (b.restored pSPI) := by
  refine ⟨rfl, ?_⟩
  change (b.withPin pSPI.xCSGPIO 0).pin = b.pin
  rw [withPin_zero hcs]

end Spi

section Chips

variable {k : BoardConfig} {b : Board} {pSPI : SpiDevice} {c : AttachCalls}
  {nID nParent pin₁ pin₂ : UInt32}

theorem chipAttach_served (h : b.Inv) (h₁ : c.lwgpioInit pin₁ = true) (h₂ : c.lwgpioInit pin₂ = true)
    (hs : b.SpiServed k pSPI c) : b.chipAttach k nID pSPI pin₁ pin₂ c =
      (some retOk, ((b.withPin pin₁ nID).withPin pin₂ nID).served pSPI nID) := by
  have hpins : ((b.withPin pin₁ nID).withPin pin₂ nID).Inv := h.of_eq rfl rfl rfl
  simp only [chipAttach, lwgpioAttach, h₁, h₂, if_true, ne_eq, not_true_eq_false, if_false]
  rw [spiAttach_served hpins hs]
  rfl

theorem chipAttach_refused (h : b.Inv) (h₁ : c.lwgpioInit pin₁ = true) (h₂ : c.lwgpioInit pin₂ = true)
    (hs : b.SpiRefused k pSPI c) : b.chipAttach k nID pSPI pin₁ pin₂ c =
      (some retError,
        ((((b.withPin pin₁ nID).withPin pin₂ nID).restored pSPI).withPin pin₁ 0).withPin pin₂ 0) := by
  have hpins : ((b.withPin pin₁ nID).withPin pin₂ nID).Inv := h.of_eq rfl rfl rfl
  simp only [chipAttach, lwgpioAttach, h₁, h₂, if_true, ne_eq, not_true_eq_false, if_false]
  have hrefused : ((b.withPin pin₁ nID).withPin pin₂ nID).SpiRefused k pSPI c := hs
  rw [spiAttach_refused hrefused]
  dsimp only
  rw [if_pos (by decide), chipError, spiDetach_eq (Function.update_self ..), detached_refused hpins hs]
  simp only [lwgpioDetach_eq]

theorem chipAttach_allowed (nID : UInt32) (h : b.Inv) (ha : b.ChipAllowed k pSPI c pin₁ pin₂) :
    (b.chipAttach k nID pSPI pin₁ pin₂ c).2.Inv ∧ b.FailsClean (b.chipAttach k nID pSPI pin₁ pin₂ c) := by
  have hpins : ((b.withPin pin₁ nID).withPin pin₂ nID).Inv := h.of_eq rfl rfl rfl
  obtain ⟨h₁, h₂, hs | ⟨hs, hcs, hpin₁, hpin₂⟩⟩ := ha
  · rw [chipAttach_served h h₁ h₂ hs]
    exact ⟨inv_served hpins hs, fun hne => absurd rfl hne⟩
  · rw [chipAttach_refused h h₁ h₂ hs]
    refine ⟨(inv_restored hpins).of_eq rfl rfl rfl, fun _ => ⟨nofun, rfl, funext fun pin => ?_⟩⟩
    simp only [restored, withPin, withOwner, withCSPort, Function.update_apply]
    -- Each pin written was nobody's before.
    split
    next heq => rw [heq, hpin₂]
    next =>
      split
      next heq => rw [heq, hpin₁]
      next =>
        split
        next heq => rw [heq, hcs]
        next => rfl

theorem inv_chipDetach (h : b.Inv) {pSPI : Option SpiDevice} (hmem : ∀ s ∈ pSPI, s ∈ b.attached)
    (pin₁ pin₂ : Option UInt32) : (b.chipDetach pSPI pin₁ pin₂).2.Inv := by
  cases pSPI with
  | none => exact h
  | some s =>
    have hs := hmem s rfl
    rw [chipDetach, spiDetach_eq (h.selected s hs)]
    dsimp only
    have hd := inv_detached h hs
    cases pin₁ with
    | none => exact hd
    | some pin₁ =>
      cases pin₂ with
      | none => exact lwgpioDetach_eq .. ▸ hd.of_eq rfl rfl rfl
      | some pin₂ =>
        simp only [pinsDetach, lwgpioDetach_eq]
        exact hd.of_eq rfl rfl rfl

theorem m25p16Attach_allowed (h : b.Inv)
    (ha : ∀ r ∈ lookup k (k.m25p16 nID), b.ChipAllowed k r.1 c r.2.1 r.2.2) :
    (b.m25p16Attach k nID c).2.Inv ∧ b.FailsClean (b.m25p16Attach k nID c) := by
  rw [m25p16Attach]
  split
  next => exact ⟨h, fun _ => ⟨nofun, rfl, rfl⟩⟩
  next s pHold pWP hr =>
    obtain ⟨hinv, hfails⟩ := chipAttach_allowed nID h (ha _ hr)
    dsimp only
    split
    next => exact ⟨hinv.of_eq rfl rfl rfl, fun hne => absurd rfl hne⟩
    next => exact ⟨hinv, hfails⟩

theorem inv_m25p16Detach (h : b.Inv) (ha : ∀ s ∈ (b.m25p16 nID).pSPI, s ∈ b.attached) :
    (b.m25p16Detach nID).2.Inv := by
  have hinv := inv_chipDetach h ha (b.m25p16 nID).pHold (b.m25p16 nID).pWP
  rw [m25p16Detach]
  dsimp only
  split
  next => exact hinv.of_eq rfl rfl rfl
  next => exact hinv

theorem mcp23s08Attach_allowed (h : b.Inv)
    (ha : ∀ nBit ∈ k.mcp23s08Gpio nParent, (b.mcp23s08 nID).pParent nBit = 0 →
      (b.mcp23s08 nID).nEnableMask = 0 →
        ∀ r ∈ lookup k (k.mcp23s08 nID), b.ChipAllowed k r.1 c r.2.1 r.2.2) :
    (b.mcp23s08Attach k nID nParent c).2.Inv ∧ b.FailsClean (b.mcp23s08Attach k nID nParent c) := by
  rw [mcp23s08Attach]
  split
  next => exact ⟨h, fun _ => ⟨nofun, rfl, rfl⟩⟩
  next nBit hbit =>
    dsimp only
    split
    next => exact ⟨h, fun _ => ⟨nofun, rfl, rfl⟩⟩
    next hfree =>
      split
      next hmask =>
        split
        next => exact ⟨h, fun _ => ⟨nofun, rfl, rfl⟩⟩
        next s pLWGPIO pLWGPIO_Reset hr =>
          obtain ⟨hinv, hfails⟩ :=
            chipAttach_allowed nID h (ha nBit hbit (not_not.mp hfree) hmask _ hr)
          split
          next => exact ⟨hinv.of_eq rfl rfl rfl, fun hne => absurd rfl hne⟩
          next => exact ⟨hinv, hfails⟩
      next => exact ⟨h.of_eq rfl rfl rfl, fun hne => absurd rfl hne⟩

theorem inv_mcp23s08Detach (h : b.Inv)
    (ha : ∀ nBit ∈ k.mcp23s08Gpio nParent,
      (b.mcp23s08 nID).nEnableMask &&& ~~~(1 <<< UInt8.ofNat nBit.val) = 0 →
        ∀ s ∈ (b.mcp23s08 nID).pSPI, s ∈ b.attached) :
    (b.mcp23s08Detach k nID nParent).2.Inv := by
  rw [mcp23s08Detach]
  split
  next => exact h
  next nBit hbit =>
    have hchip : ((b.withBit nID nBit 0 ((b.mcp23s08 nID).nEnableMask &&&
        ~~~(1 <<< UInt8.ofNat nBit.val))).mcp23s08 nID) = ⟨Function.update (b.mcp23s08 nID).pParent nBit 0,
          (b.mcp23s08 nID).nEnableMask &&& ~~~(1 <<< UInt8.ofNat nBit.val), (b.mcp23s08 nID).pSPI,
          Mcp23s08.pLWGPIO (b.mcp23s08 nID), (b.mcp23s08 nID).pLWGPIO_Reset⟩ := Function.update_self ..
    dsimp only
    rw [hchip]
    split
    next hmask =>
      have hbits : (b.withBit nID nBit 0 ((b.mcp23s08 nID).nEnableMask &&&
          ~~~(1 <<< UInt8.ofNat nBit.val))).Inv := h.of_eq rfl rfl rfl
      have hinv := inv_chipDetach hbits (ha nBit hbit hmask) (Mcp23s08.pLWGPIO (b.mcp23s08 nID))
        (b.mcp23s08 nID).pLWGPIO_Reset
      split
      next => exact hinv.of_eq rfl rfl rfl
      next => exact hinv
    next => exact h.of_eq rfl rfl rfl

end Chips

section Converters

variable {k : BoardConfig} {b : Board} {pSPI : SpiDevice} {c : AttachCalls}
  {nID nParent pObj : UInt32}

theorem inv_withConverter (h : b.Inv) (adc : Ad7785) : (b.withConverter nID adc).Inv :=
  h.of_eq rfl rfl rfl

/-- The converter has found its device. -/
def located (b : Board) (nID : UInt32) (pSPI : SpiDevice) : Board :=
  b.withConverter nID ⟨some pSPI, (b.ad7785 nID).nParent⟩

theorem located_restored (b : Board) (nID : UInt32) (pSPI : SpiDevice) (adc : Ad7785) :
    ((b.located nID pSPI).restored pSPI).withConverter nID adc =
      (b.restored pSPI).withConverter nID adc := by
  simp [located, restored, withConverter, withPin, withCSPort, withOwner]

theorem ad7785Attach_none (hk : (do k.spi (← k.ad7785 nID)) = none) :
    b.ad7785Attach k nID nParent c =
      (retNotEnoughMemory, b.withConverter nID ⟨none, (b.ad7785 nID).nParent⟩) := by
  rw [ad7785Attach, hk]

theorem ad7785Attach_eq (hk : (do k.spi (← k.ad7785 nID)) = some pSPI) :
    b.ad7785Attach k nID nParent c =
      let r := (b.located nID pSPI).spiAttach k pSPI nID c
      if r.1 = retOk then (retOk, r.2.withConverter nID { r.2.ad7785 nID with nParent }) else r := by
  rw [ad7785Attach, hk]
  rfl

theorem ad7785Attach_served (h : b.Inv) (hk : (do k.spi (← k.ad7785 nID)) = some pSPI)
    (hs : b.SpiServed k pSPI c) : b.ad7785Attach k nID nParent c =
      (retOk, ((b.located nID pSPI).served pSPI nID).withConverter nID ⟨some pSPI, nParent⟩) := by
  have hself : ((b.located nID pSPI).served pSPI nID).ad7785 nID =
      ⟨some pSPI, (b.ad7785 nID).nParent⟩ := Function.update_self ..
  have hb : (b.located nID pSPI).Inv := inv_withConverter h _
  rw [ad7785Attach_eq hk, spiAttach_served hb hs]
  dsimp only
  rw [if_pos rfl, hself]

theorem ad7785Attach_error (hk : (do k.spi (← k.ad7785 nID)) = some pSPI) {b' : Board}
    (hs : (b.located nID pSPI).spiAttach k pSPI nID c = (retError, b')) :
    b.ad7785Attach k nID nParent c = (retError, b') := by
  rw [ad7785Attach_eq hk, hs]
  rfl

theorem ad7785Attach_closed (hk : (do k.spi (← k.ad7785 nID)) = some pSPI)
    (hs : b.SpiClosed pSPI c) :
    b.ad7785Attach k nID nParent c = (retError, b.located nID pSPI) :=
  ad7785Attach_error hk (spiAttach_closed hs)

theorem ad7785Attach_refused (hk : (do k.spi (← k.ad7785 nID)) = some pSPI)
    (hs : b.SpiRefused k pSPI c) :
    b.ad7785Attach k nID nParent c = (retError, (b.located nID pSPI).refused pSPI) :=
  ad7785Attach_error hk (spiAttach_refused hs)

theorem ad7785Attach_allowed (nParent : UInt32) (h : b.Inv)
    (ha : ∀ s, (do k.spi (← k.ad7785 nID)) = some s → b.SpiServed k s c ∨ b.SpiClosed s c) :
    (b.ad7785Attach k nID nParent c).2.Inv ∧
      b.FailsClean ((b.ad7785Attach k nID nParent c).map some id) := by
  cases hk : (do k.spi (← k.ad7785 nID) : Option SpiDevice) with
  | none =>
    rw [ad7785Attach_none hk]
    exact ⟨inv_withConverter h _, fun _ => ⟨nofun, rfl, rfl⟩⟩
  | some s =>
    have hb : (b.located nID s).Inv := inv_withConverter h _
    obtain hs | hs := ha s hk
    · rw [ad7785Attach_served h hk hs]
      exact ⟨inv_withConverter (inv_served hb hs) _, fun hne => absurd rfl hne⟩
    · rw [ad7785Attach_closed hk hs]
      exact ⟨hb, fun _ => ⟨nofun, rfl, rfl⟩⟩

theorem ad7785Detach_eq (hs : (b.ad7785 nID).pSPI = some pSPI)
    (hcs : b.pCSPort pSPI = some pSPI.xCSGPIO) : b.ad7785Detach nID =
      (some retOk, (b.detached pSPI).withConverter nID { b.ad7785 nID with nParent := 0 }) := by
  rw [ad7785Detach, hs]
  dsimp only
  rw [spiDetach_eq hcs]
  rfl

theorem inv_ad7785Detach (h : b.Inv) (hmem : ∀ s ∈ (b.ad7785 nID).pSPI, s ∈ b.attached) :
    (b.ad7785Detach nID).2.Inv := by
  cases hs : (b.ad7785 nID).pSPI with
  | none =>
    rw [ad7785Detach, hs]
    exact h
  | some s =>
    rw [ad7785Detach_eq hs (h.selected s (hmem s hs))]
    exact inv_withConverter (inv_detached h (hmem s hs)) _

/-- The error path gives back the device once. -/
theorem rtdError_restored {b' : Board} {nOwner : UInt32} {adc : Ad7785} (h : b.Inv)
    (hstatus : b'.pStatus pObj = true) (hs : b'.ad7785 nID = ⟨some pSPI, nOwner⟩)
    (hport : b'.pCSPort pSPI = some pSPI.xCSGPIO) (hcs : b.pin pSPI.xCSGPIO = 0)
    (hd : b'.detached pSPI = (b.restored pSPI).withConverter nID adc) :
    (b'.rtdError pObj nID).2.Inv ∧ b.FailsClean (b'.rtdError pObj nID) := by
  have hpSPI : (b'.ad7785 nID).pSPI = some pSPI := by rw [hs]
  rw [rtdError, hstatus, if_pos rfl, ad7785Detach_eq hpSPI hport, hd]
  exact ⟨(inv_restored h).of_eq rfl rfl rfl, fun _ => ⟨nofun, sameOwners_restored hcs⟩⟩

variable {value : Bool} {init : Ret} {node : Bool}

/-- Without a status nothing is given back. -/
theorem rtdAttach_lost (h : b.Inv) (hstatus : b.pStatus pObj = false)
    (ha : ∀ s, (do k.spi (← k.ad7785 nID)) = some s → b.SpiClosed s c) :
    (b.rtdAttach k pObj nID value init node c).2.Inv ∧
      b.FailsClean (b.rtdAttach k pObj nID value init node c) := by
  cases hadc : k.ad7785 nID with
  | none =>
    rw [rtdAttach, hadc]
    dsimp only
    rw [hstatus, if_neg (by simp)]
    exact ⟨h, fun _ => ⟨nofun, rfl, rfl⟩⟩
  | some xSPI =>
    have hattach : ∃ xRet adc, xRet ≠ retOk ∧
        b.ad7785Attach k nID pObj c = (xRet, b.withConverter nID adc) := by
      cases hk : (do k.spi (← k.ad7785 nID) : Option SpiDevice) with
      | none => exact ⟨_, _, by decide, ad7785Attach_none hk⟩
      | some s => exact ⟨_, _, by decide, ad7785Attach_closed hk (ha s hk)⟩
    obtain ⟨xRet, adc, hne, hattach⟩ := hattach
    have hlost : (b.withConverter nID adc).pStatus pObj = false := hstatus
    rw [rtdAttach, hadc, hattach]
    dsimp only
    rw [if_pos hne, rtdError, hlost, if_neg (by simp)]
    exact ⟨inv_withConverter h _, fun _ => ⟨nofun, rfl, rfl⟩⟩

theorem rtdAttach_served (h : b.Inv) (hk : (do k.spi (← k.ad7785 nID)) = some pSPI)
    (hstatus : b.pStatus pObj = true) (hs : b.SpiServed k pSPI c)
    (hlater : if value then init = retOk else b.pin pSPI.xCSGPIO = 0) :
    (b.rtdAttach k pObj nID value init node c).2.Inv ∧
      b.FailsClean (b.rtdAttach k pObj nID value init node c) := by
  have hb : (b.located nID pSPI).Inv := inv_withConverter h _
  have hkept : (((b.located nID pSPI).served pSPI nID).withConverter nID
      ⟨some pSPI, pObj⟩).pStatus pObj = true := hstatus
  obtain ⟨xSPI, hadc, -⟩ := Option.bind_eq_some_iff.mp hk
  rw [rtdAttach, hadc, ad7785Attach_served h hk hs]
  dsimp only
  rw [if_neg (by simp), hkept, if_neg (by simp)]
  cases value with
  | true =>
    rw [if_pos rfl] at hlater ⊢
    rw [if_neg (not_not.mpr hlater)]
    refine ⟨?_, fun hne => absurd rfl hne⟩
    cases node with
    | false => exact inv_withConverter (inv_served hb hs) _
    | true =>
      have hserved : ((b.located nID pSPI).served pSPI nID).Inv := inv_served hb hs
      exact hserved.of_eq rfl rfl rfl
  | false =>
    rw [if_neg (by simp)] at hlater ⊢
    have hd : (((b.located nID pSPI).served pSPI nID).withConverter nID ⟨some pSPI, pObj⟩).detached pSPI =
        (((b.located nID pSPI).served pSPI nID).detached pSPI).withConverter nID ⟨some pSPI, pObj⟩ := rfl
    rw [detached_served hb hs, located_restored] at hd
    exact rtdError_restored h hkept (Function.update_self ..) (Function.update_self ..) hlater hd

theorem rtdAttach_refused (h : b.Inv) (hk : (do k.spi (← k.ad7785 nID)) = some pSPI)
    (hstatus : b.pStatus pObj = true) (hs : b.SpiRefused k pSPI c) (hcs : b.pin pSPI.xCSGPIO = 0) :
    (b.rtdAttach k pObj nID value init node c).2.Inv ∧
      b.FailsClean (b.rtdAttach k pObj nID value init node c) := by
  have hb : (b.located nID pSPI).Inv := inv_withConverter h _
  obtain ⟨xSPI, hadc, -⟩ := Option.bind_eq_some_iff.mp hk
  rw [rtdAttach, hadc, ad7785Attach_refused hk hs]
  dsimp only
  rw [if_pos (by decide)]
  have hd : ((b.located nID pSPI).refused pSPI).detached pSPI =
      (b.restored pSPI).withConverter nID ⟨some pSPI, (b.ad7785 nID).nParent⟩ := detached_refused hb hs
  exact rtdError_restored h hstatus (Function.update_self ..) (Function.update_self ..) hcs hd

theorem rtdAttach_allowed (node : Bool) (h : b.Inv) (ha : b.RtdAllowed k c pObj nID value init) :
    (b.rtdAttach k pObj nID value init node c).2.Inv ∧
      b.FailsClean (b.rtdAttach k pObj nID value init node c) := by
  rw [RtdAllowed] at ha
  cases hk : (do k.spi (← k.ad7785 nID) : Option SpiDevice) with
  | none =>
    rw [hk] at ha
    exact rtdAttach_lost h ha fun s hs => by simp [hk] at hs
  | some s =>
    rw [hk] at ha
    dsimp only at ha
    cases hstatus : b.pStatus pObj with
    | false =>
      rw [hstatus, if_neg (by simp)] at ha
      refine rtdAttach_lost h hstatus fun s' hs => ?_
      rw [hk] at hs
      cases hs
      exact ha
    | true =>
      rw [hstatus, if_pos rfl] at ha
      obtain ⟨hs, hlater⟩ | ⟨hs, hcs⟩ := ha
      · exact rtdAttach_served h hk hstatus hs hlater
      · exact rtdAttach_refused h hk hstatus hs hcs

end Converters

end Board

inductive SpiAction where
  | spiAttach (pSPI : SpiDevice) (nParent : UInt32) (c : AttachCalls)
  | spiDetach (pSPI : SpiDevice)
  | m25p16Attach (nID : UInt32) (c : AttachCalls)
  | m25p16Detach (nID : UInt32)
  | mcp23s08Attach (nID nParent : UInt32) (c : AttachCalls)
  | mcp23s08Detach (nID nParent : UInt32)
  | ad7785Attach (nID nParent : UInt32) (c : AttachCalls)
  | ad7785Detach (nID : UInt32)
  | rtdAttach (pObj nDevID : UInt32) (value : Bool) (init : Ret) (node : Bool) (c : AttachCalls)
  | rtdDetach (pObj : UInt32)

namespace Board

section Runs

variable (k : BoardConfig) (b : Board)

def call : SpiAction → Option Ret × Board
  | .spiAttach pSPI nParent c => (b.spiAttach k pSPI nParent c).map some id
  | .spiDetach pSPI => b.spiDetach pSPI
  | .m25p16Attach nID c => b.m25p16Attach k nID c
  | .m25p16Detach nID => b.m25p16Detach nID
  | .mcp23s08Attach nID nParent c => b.mcp23s08Attach k nID nParent c
  | .mcp23s08Detach nID nParent => b.mcp23s08Detach k nID nParent
  | .ad7785Attach nID nParent c => (b.ad7785Attach k nID nParent c).map some id
  | .ad7785Detach nID => b.ad7785Detach nID
  | .rtdAttach pObj nDevID value init node c => b.rtdAttach k pObj nDevID value init node c
  | .rtdDetach pObj => (b.rtdDetach pObj).map some id

def step (a : SpiAction) : Option Board := some (b.call k a).2

end Runs

end Board

namespace SpiAction

def attaches : SpiAction → Bool
  | .spiAttach .. => true
  | .m25p16Attach .. => true
  | .mcp23s08Attach .. => true
  | .ad7785Attach .. => true
  | .rtdAttach .. => true
  | _ => false

/-- Each driver detaches only a device that is attached. -/
def Allowed (k : BoardConfig) (b : Board) : SpiAction → Prop
  | .spiAttach pSPI _ c => b.SpiServed k pSPI c ∨ b.SpiClosed pSPI c
  | .spiDetach pSPI => pSPI ∈ b.attached
  | .m25p16Attach nID c =>
    ∀ r ∈ Board.lookup k (k.m25p16 nID), b.ChipAllowed k r.1 c r.2.1 r.2.2
  | .m25p16Detach nID => ∀ s ∈ (b.m25p16 nID).pSPI, s ∈ b.attached
  | .mcp23s08Attach nID nParent c =>
    ∀ nBit ∈ k.mcp23s08Gpio nParent, (b.mcp23s08 nID).pParent nBit = 0 →
      (b.mcp23s08 nID).nEnableMask = 0 →
        ∀ r ∈ Board.lookup k (k.mcp23s08 nID), b.ChipAllowed k r.1 c r.2.1 r.2.2
  | .mcp23s08Detach nID nParent =>
    ∀ nBit ∈ k.mcp23s08Gpio nParent,
      (b.mcp23s08 nID).nEnableMask &&& ~~~(1 <<< UInt8.ofNat nBit.val) = 0 →
        ∀ s ∈ (b.mcp23s08 nID).pSPI, s ∈ b.attached
  | .ad7785Attach nID _ c =>
    ∀ s ∈ (do k.spi (← k.ad7785 nID)), b.SpiServed k s c ∨ b.SpiClosed s c
  | .ad7785Detach nID => ∀ s ∈ (b.ad7785 nID).pSPI, s ∈ b.attached
  | .rtdAttach pObj nDevID value init _ c => b.RtdAllowed k c pObj nDevID value init
  | .rtdDetach _ => True

instance (k : BoardConfig) (b : Board) (a : SpiAction) : Decidable (a.Allowed k b) := by
  unfold Allowed
  split <;> infer_instance

end SpiAction

namespace Board

section Runs

variable {k : BoardConfig} {b : Board} {a : SpiAction}

theorem inv_start : start.Inv :=
  ⟨fun _ => ⟨⟨nofun, fun hu => absurd hu Finset.not_nonempty_empty⟩, rfl⟩, nofun⟩

theorem call_allowed (h : b.Inv) (ha : a.Allowed k b) :
    (b.call k a).2.Inv ∧ (a.attaches = true → b.FailsClean (b.call k a)) := by
  cases a with
  | spiAttach pSPI nParent c =>
    obtain hs | hs := ha
    · rw [call, spiAttach_served h hs]
      exact ⟨inv_served h hs, fun _ hne => absurd rfl hne⟩
    · rw [call, spiAttach_closed hs]
      exact ⟨h, fun _ _ => ⟨nofun, rfl, rfl⟩⟩
  | spiDetach pSPI =>
    rw [call, spiDetach_eq (h.selected pSPI ha)]
    exact ⟨inv_detached h ha, nofun⟩
  | m25p16Attach nID c =>
    obtain ⟨hinv, hfails⟩ := m25p16Attach_allowed h ha
    exact ⟨hinv, fun _ => hfails⟩
  | m25p16Detach nID => exact ⟨inv_m25p16Detach h ha, nofun⟩
  | mcp23s08Attach nID nParent c =>
    obtain ⟨hinv, hfails⟩ := mcp23s08Attach_allowed h ha
    exact ⟨hinv, fun _ => hfails⟩
  | mcp23s08Detach nID nParent => exact ⟨inv_mcp23s08Detach h ha, nofun⟩
  | ad7785Attach nID nParent c =>
    obtain ⟨hinv, hfails⟩ := ad7785Attach_allowed nParent h ha
    exact ⟨hinv, fun _ => hfails⟩
  | ad7785Detach nID => exact ⟨inv_ad7785Detach h ha, nofun⟩
  | rtdAttach pObj nDevID value init node c =>
    obtain ⟨hinv, hfails⟩ := rtdAttach_allowed node h ha
    exact ⟨hinv, fun _ => hfails⟩
  | rtdDetach pObj =>
    rw [call, rtdDetach]
    split
    next => exact ⟨h.of_eq rfl rfl rfl, nofun⟩
    next => exact ⟨h, nofun⟩

/-- While what fails fails alone, the channels are counted and a failing attach changes no owner. -/
theorem counted_of_allowed {acts : List SpiAction}
    (ha : ∀ u a, Takes (step k) start acts u a → a.Allowed k u) :
    (∀ u, Visits (step k) start acts u → u.Counted) ∧
      ∀ u a, Takes (step k) start acts u a → a.attaches = true → u.FailsClean (u.call k a) := by
  have hinv (u : Board) (hv : Visits (step k) start acts u) : u.Inv := by
    refine inv_of_takes inv_start (fun s a t hs hal hstep => ?_) ha hv
    cases hstep
    exact (call_allowed hs hal).1
  refine ⟨fun u hv => (hinv u hv).counted, ?_⟩
  rintro u a ⟨pre, hp, hu⟩
  exact (call_allowed (hinv u ⟨pre, (List.prefix_append pre [a]).trans hp, hu⟩)
    (ha u a ⟨pre, hp, hu⟩)).2

/-- The flash and the converter share a channel, the port expander has its own. -/
def twoChannels : BoardConfig where
  spi nID :=
    if nID = 1 then some ⟨1, 0, 10⟩ else if nID = 2 then some ⟨2, 0, 20⟩
    else if nID = 3 then some ⟨3, 1, 30⟩ else none
  lwgpio _ := true
  m25p16 _ := ⟨1, 11, 12⟩
  mcp23s08 _ := ⟨3, 31, 32⟩
  mcp23s08Gpio nParent :=
    if nParent = 61 then some ⟨0, by decide⟩ else if nParent = 62 then some ⟨1, by decide⟩ else none
  ad7785 _ := some 2

def working : AttachCalls := ⟨true, true, fun _ => true, fun _ => true⟩

def refusing ( pLWGPIO : UInt32) : AttachCalls := { working with lwgpioInit pin := pin ≠ pLWGPIO }

/-- All drivers come, and go; then the flash and the converter are refused their chip selects. -/
def turns : List SpiAction :=
  [.m25p16Attach 5 working, .rtdAttach 8 7 true retOk true working, .mcp23s08Attach 6 61 working,
    .mcp23s08Attach 6 62 working, .mcp23s08Detach 6 61, .mcp23s08Detach 6 62, .m25p16Detach 5,
    .rtdDetach 8, .ad7785Detach 7, .m25p16Attach 5 (refusing 10),
    .rtdAttach 8 7 true retOk true (refusing 20)]

theorem turns_counted : (∀ u, Visits (step twoChannels) start turns u → u.Counted) ∧
    ∀ u a, Takes (step twoChannels) start turns u a → a.attaches = true →
      u.FailsClean (u.call twoChannels a) :=
  counted_of_allowed (takes_of_along (by decide))

/-- Beside the flash, a converter that is refused its chip select closes the channel; and one that does
not take its settings is detached twice. -/
theorem flash_not_counted :
    (∃ u, Visits (step twoChannels) start
      [.m25p16Attach 5 working, .ad7785Attach 7 8 (refusing 20)] u ∧ ¬ u.Counted) ∧
      ∃ u, Visits (step twoChannels) start [.m25p16Attach 5 working] u ∧
        ¬ u.FailsClean (u.call twoChannels (.rtdAttach 8 7 true retError true working)) := by
  constructor
  · refine ⟨_, ⟨_, List.prefix_rfl, rfl⟩, fun h => ?_⟩
    have hopen := (h 0).1.mpr ⟨⟨1, 0, 10⟩, by decide⟩
    revert hopen
    decide
  · refine ⟨_, ⟨_, List.prefix_rfl, rfl⟩, fun h => ?_⟩
    have hsame := congrFun (h (by decide)).2.1 0
    revert hsame
    decide

end Runs

end Board

end EdgeNode.Spi
