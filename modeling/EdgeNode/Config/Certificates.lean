import EdgeNode.Config.Slots
import EdgeNode.Lib.BufferAccess
import EdgeNode.Sys.Crc32

/-! The certificate: its two flash files, the writes of `FTE_CFG_CERT_set` and what a boot reads. -/

namespace EdgeNode.Config

open BufferAccess Sys

section Definitions

/-- `FTE_CFG_CERT_POOL_HEAD` -/
structure CertHead where
  ulCRC : UInt32
  ulTag : UInt32
  nID : UInt32
  ulCertLen : UInt32

def wordAt (m : Nat → UInt8) (i : Nat) : UInt32 :=
  UInt32.ofNat ((m i).toNat + 256 * (m (i + 1)).toNat + 65536 * (m (i + 2)).toNat +
    16777216 * (m (i + 3)).toNat)

/-- The header behind its CRC, which the CRC begins with. -/
def CertHead.body (h : CertHead) : List UInt8 :=
  wordBytes h.ulTag ++ wordBytes h.nID ++ wordBytes h.ulCertLen

def CertHead.bytes (h : CertHead) : List UInt8 := wordBytes h.ulCRC ++ h.body

def certHead (m : Nat → UInt8) : CertHead := ⟨wordAt m 0, wordAt m 4, wordAt m 8, wordAt m 12⟩

/-- The bytes of `pCert` in `FTE_CFG_CERT_POOL`. -/
def certMax : Nat := 4080

/-- The size of each of the files `cert0` and `cert1`. -/
def certFileSize : Nat := 8192

/-- A write to a file of flash, up to its end. -/
def writeAt (off : Nat) (bs : List UInt8) (m : Nat → UInt8) (i : Nat) : UInt8 :=
  if off ≤ i ∧ i < off + bs.length ∧ i < certFileSize then bs.getD (i - off) 0 else m i

/-- The flash files `cert0` and `cert1`, whether the configuration is up, and whether `pCertPool` is
set: it points into `cert1`, which lies at 0x7E000. -/
structure CertStore where
  pDESC : Bool
  pCertPool : Bool
  file : Bool → Nat → UInt8

/-- The tests of `FTE_CFG_CERT_load`. -/
def certValid (m : Nat → UInt8) : Bool :=
  let h := certHead m
  decide (h.ulCertLen.toNat ≤ certMax) && h.ulTag == poolVersion &&
    h.ulCRC == crc32 0 (bytesAt m 4 (12 + h.ulCertLen.toNat)) && decide (h.nID.toNat ≤ maxInt32)

/-- `FTE_CFG_CERT_load` looks at `cert1` only. -/
def certLoad (s : CertStore) : Ret × CertStore :=
  if s.pDESC = false then (retError, s)
  else if s.pCertPool then (retOk, s)
  else if certValid (s.file true) then (retOk, { s with pCertPool := true })
  else (retError, s)

/-- `FTE_CFG_CERT_get`: the code and the bytes copied, whose number goes to `*pLen`. -/
def certGet (ulBuffLen : UInt32) (s : CertStore) : (Ret × List UInt8) × CertStore :=
  let (xRet, s) := if s.pCertPool then (retOk, s) else certLoad s
  if xRet ≠ retOk then ((xRet, []), s)
  else
    let ulCertLen := (certHead (s.file true)).ulCertLen
    if ulBuffLen < ulCertLen then ((retBufferTooSmall, []), s)
    else ((retOk, bytesAt (s.file true) 16 ulCertLen.toNat), s)

/-- The header as it is written. `xCertHead.ulCertLen` is never assigned: it is what stands on the
stack. -/
def newHead (nID ulCertLen : UInt32) (pCert : List UInt8) : CertHead :=
  let h : CertHead := ⟨0, poolVersion, nID, ulCertLen⟩
  { h with ulCRC := crc32 (crc32 0 h.body) pCert }

/-- The loop of `FTE_CFG_CERT_set`, over files of which some may not open. -/
def certWrites (opens : Bool → Bool) (ulCertLen : UInt32) (pCert : List UInt8) :
    Nat → UInt32 → (Bool → Nat → UInt8) → Bool → Nat → UInt8
  | 0, _, file => file
  | k + 1, nID, file =>
    let h := newHead (nID + 1) ulCertLen pCert
    let b := bankOf h.nID
    if opens b then
      certWrites opens ulCertLen pCert k h.nID
        (Function.update file b (writeAt 16 pCert (writeAt 0 h.bytes (file b))))
    else file

def certID (s : CertStore) : UInt32 := if s.pCertPool then (certHead (s.file true)).nID else 0

def certSet (opens : Bool → Bool) (ulCertLen : UInt32) (pCert : List UInt8) (s : CertStore) :
    Ret × CertStore :=
  (retOk, { s with file := certWrites opens ulCertLen pCert 2 (certID s) s.file })

/-- The configuration comes up again, and finds the flash as it was. -/
def CertStore.reboot (s : CertStore) : CertStore := { s with pDESC := true, pCertPool := false }

/-- What setting a certificate is to do: after a reboot the same bytes are read, and one that is too
long is refused and leaves the flash alone. -/
structure CertStored (opens : Bool → Bool) (ulCertLen : UInt32) (pCert : List UInt8)
    (s : CertStore) : Prop where
  read : pCert.length ≤ certMax → ∀ ulBuffLen : UInt32, pCert.length ≤ ulBuffLen.toNat →
    (certGet ulBuffLen (certLoad (certSet opens ulCertLen pCert s).2.reboot).2).1 = (retOk, pCert)
  refused : certMax < pCert.length → (certSet opens ulCertLen pCert s).1 ≠ retOk ∧
    (certSet opens ulCertLen pCert s).2.file = s.file

/-- The certificate that a boot finds in a file. -/
def certRead (m : Nat → UInt8) : Option (List UInt8) :=
  if certValid m then some (bytesAt m 16 (certHead m).ulCertLen.toNat) else none

/-- Whether the file `cert1`, the one for odd identifiers, is written, and with which one. -/
def certWritten (opens : Bool → Bool) (nID : UInt32) : Bool :=
  if bankOf (nID + 1) then opens true else opens false && opens true

def writtenID (nID : UInt32) : UInt32 := if bankOf (nID + 1) then nID + 1 else nID + 1 + 1

/-- The certificate fits, and the word on the stack happens to be its length and the identifier is
not used up; or the file is not written and holds this very certificate. -/
def CertKept (opens : Bool → Bool) (ulCertLen : UInt32) (pCert : List UInt8) (s : CertStore) :
    Prop :=
  pCert.length ≤ certMax ∧
    if certWritten opens (certID s) then
      ulCertLen.toNat = pCert.length ∧ (writtenID (certID s)).toNat ≤ maxInt32
    else certRead (s.file true) = some pCert

end Definitions

section Memory

theorem bytesAt_getElem? (m : Nat → UInt8) (i k j : Nat) :
    (bytesAt m i k)[j]? = if j < k then some (m (i + j)) else none := by
  induction k generalizing i j with
  | zero => simp [bytesAt]
  | succ k ih =>
    cases j with
    | zero => simp [bytesAt]
    | succ j =>
      rw [bytesAt, List.getElem?_cons_succ, ih, Nat.add_right_comm, Nat.add_assoc]
      simp

theorem bytesAt_add (m : Nat → UInt8) (i k l : Nat) :
    bytesAt m i (k + l) = bytesAt m i k ++ bytesAt m (i + k) l := by
  induction k generalizing i with
  | zero => simp [bytesAt]
  | succ k ih =>
    have hi : i + 1 + k = i + (k + 1) := by omega
    rw [Nat.succ_add, bytesAt, bytesAt, ih, List.cons_append, hi]

theorem wordAt_eq {m : Nat → UInt8} {i : Nat} {w : UInt32} (h : bytesAt m i 4 = wordBytes w) :
    wordAt m i = w := by
  simp only [bytesAt, wordBytes, List.cons.injEq, and_true] at h
  obtain ⟨h0, h1, h2, h3⟩ := h
  have hw := w.toNat_lt
  apply UInt32.toNat_inj.mp
  rw [wordAt, h0, h1, h2, h3]
  simp only [UInt32.toNat_ofNat', UInt8.toNat_ofNat']
  omega

theorem wordAt_of_split {m : Nat → UInt8} {i k : Nat} {w : UInt32} {bs : List UInt8}
    (h : bytesAt m i (4 + k) = wordBytes w ++ bs) :
    wordAt m i = w ∧ bytesAt m (i + 4) k = bs := by
  rw [bytesAt_add] at h
  obtain ⟨hw, hbs⟩ := List.append_inj h (by rw [bytesAt_length]; rfl)
  exact ⟨wordAt_eq hw, hbs⟩

theorem certHead_of_bytes {h : CertHead} (hm : bytesAt m 0 16 = h.bytes) : certHead m = h := by
  rw [CertHead.bytes, CertHead.body] at hm
  obtain ⟨hcrc, hm⟩ := wordAt_of_split (k := 12) hm
  rw [List.append_assoc] at hm
  obtain ⟨htag, hm⟩ := wordAt_of_split (k := 8) hm
  obtain ⟨hid, hm⟩ := wordAt_of_split (k := 4) hm
  have hlen := wordAt_eq hm
  rw [certHead, hcrc, htag, hid, hlen]

theorem bytesAt_writeAt (m : Nat → UInt8) {off : Nat} {bs : List UInt8}
    (h : off + bs.length ≤ certFileSize) : bytesAt (writeAt off bs m) off bs.length = bs := by
  apply List.ext_getElem?
  intro j
  rw [bytesAt_getElem?]
  split
  · next hj =>
    rw [writeAt, if_pos (by omega), Nat.add_sub_cancel_left, List.getD_eq_getElem?_getD,
      List.getElem?_eq_getElem hj]
    rfl
  · next hj => rw [List.getElem?_eq_none (by omega)]

theorem bytesAt_writeAt_before (m : Nat → UInt8) {off i k : Nat} (bs : List UInt8)
    (h : i + k ≤ off) : bytesAt (writeAt off bs m) i k = bytesAt m i k := by
  apply List.ext_getElem?
  intro j
  rw [bytesAt_getElem?, bytesAt_getElem?]
  split
  · rw [writeAt, if_neg (by omega)]
  · rfl

end Memory

section Write

variable {nID ulCertLen : UInt32} {pCert : List UInt8} {m : Nat → UInt8}

/-- A file once a header and a certificate are written to it. -/
def certImage (nID ulCertLen : UInt32) (pCert : List UInt8) (m : Nat → UInt8) : Nat → UInt8 :=
  writeAt 16 pCert (writeAt 0 (newHead nID ulCertLen pCert).bytes m)

theorem certImage_head : bytesAt (certImage nID ulCertLen pCert m) 0 16 =
    (newHead nID ulCertLen pCert).bytes := by
  have hsize : (newHead nID ulCertLen pCert).bytes.length = 16 := rfl
  rw [certImage, bytesAt_writeAt_before _ pCert (by omega), ← hsize]
  apply bytesAt_writeAt
  rw [hsize]
  decide

theorem certHead_certImage :
    certHead (certImage nID ulCertLen pCert m) = newHead nID ulCertLen pCert :=
  certHead_of_bytes certImage_head

theorem certImage_body (hlen : pCert.length ≤ certMax) :
    bytesAt (certImage nID ulCertLen pCert m) 16 pCert.length = pCert :=
  bytesAt_writeAt _ (by simp only [certMax, certFileSize] at hlen ⊢; omega)

/-- The CRC of a header and of the certificate behind it is the one that a boot computes, where the
header has the length of the certificate. -/
theorem certImage_crc (hlen : pCert.length ≤ certMax) (h : ulCertLen.toNat = pCert.length) :
    crc32 0 (bytesAt (certImage nID ulCertLen pCert m) 4 (12 + ulCertLen.toNat)) =
      (newHead nID ulCertLen pCert).ulCRC := by
  have hbody : bytesAt (certImage nID ulCertLen pCert m) 4 12 =
      (newHead nID ulCertLen pCert).body := (wordAt_of_split (k := 12) certImage_head).2
  rw [bytesAt_add, hbody, h, certImage_body hlen, crc32_append]
  rfl

theorem certRead_length {cert : List UInt8} (h : certRead m = some cert) :
    (certHead m).ulCertLen.toNat = cert.length := by
  rw [certRead, Option.ite_none_right_eq_some] at h
  rw [← Option.some.inj h.2, bytesAt_length]

theorem certRead_certImage (hlen : pCert.length ≤ certMax) :
    certRead (certImage nID ulCertLen pCert m) = some pCert ↔
      ulCertLen.toNat = pCert.length ∧ nID.toNat ≤ maxInt32 := by
  constructor
  · intro h
    have hstack := certRead_length h
    rw [certHead_certImage] at hstack
    rw [certRead, Option.ite_none_right_eq_some] at h
    refine ⟨hstack, ?_⟩
    have hvalid := h.1
    simp only [certValid, certHead_certImage, Bool.and_eq_true, decide_eq_true_eq] at hvalid
    exact hvalid.2
  · rintro ⟨hstack, hid⟩
    have hvalid : certValid (certImage nID ulCertLen pCert m) = true := by
      simp only [certValid, certHead_certImage, Bool.and_eq_true, decide_eq_true_eq, beq_iff_eq]
      refine ⟨⟨⟨?_, rfl⟩, ?_⟩, hid⟩
      · show ulCertLen.toNat ≤ certMax
        rw [hstack]
        exact hlen
      · exact (certImage_crc hlen hstack).symm
    have hsize : (certHead (certImage nID ulCertLen pCert m)).ulCertLen.toNat = pCert.length := by
      rw [certHead_certImage]
      exact hstack
    rw [certRead, if_pos hvalid, hsize, certImage_body hlen]

theorem bankOf_succ (nID : UInt32) : bankOf (nID + 1) = !bankOf nID := by
  have h : (nID + 1).toNat % 2 = (nID.toNat + 1) % 2 := by
    rw [UInt32.toNat_add, UInt32.toNat_one]
    omega
  rw [bankOf_eq, bankOf_eq, ← TwoSlot.Store.parity_succ, TwoSlot.parity, TwoSlot.parity, h]

theorem certWrites_cert1 (opens : Bool → Bool) (file : Bool → Nat → UInt8) :
    certWrites opens ulCertLen pCert 2 nID file true =
      if certWritten opens nID then certImage (writtenID nID) ulCertLen pCert (file true)
      else file true := by
  have hid (n : UInt32) : (newHead n ulCertLen pCert).nID = n := rfl
  have hnext := bankOf_succ (nID + 1)
  rcases Bool.eq_false_or_eq_true (bankOf (nID + 1)) with hbank | hbank <;>
    cases ht : opens true <;> cases hf : opens false <;>
    simp [certWrites, certWritten, writtenID, hid, hbank, hnext, certImage, ht, hf]

end Write

/-- What `FTE_CFG_CERT_get` hands over after a boot is the certificate in `cert1`. -/
theorem certGet_reboot (s : CertStore) (ulBuffLen : UInt32) {cert : List UInt8}
    (hfit : cert.length ≤ ulBuffLen.toNat) :
    (certGet ulBuffLen (certLoad s.reboot).2).1 = (retOk, cert) ↔
      certRead (s.file true) = some cert := by
  have hsmall : retBufferTooSmall ≠ retOk := by decide
  by_cases hvalid : certValid (s.file true) = true
  · have hload : (certLoad s.reboot).2 = { s.reboot with pCertPool := true } := by
      simp [certLoad, CertStore.reboot, hvalid]
    rw [hload, certRead, if_pos hvalid, Option.some.injEq]
    simp only [certGet, if_true, CertStore.reboot]
    constructor
    · intro h
      split at h
      · contradiction
      · split at h
        · exact absurd (Prod.ext_iff.mp h).1 hsmall
        · exact (Prod.ext_iff.mp h).2
    · intro h
      have hlen : ¬ ulBuffLen < (certHead (s.file true)).ulCertLen := by
        have hcert := congrArg List.length h
        rw [bytesAt_length] at hcert
        rw [UInt32.lt_iff_toNat_lt, hcert]
        omega
      simp [hlen, h]
  · have hload : (certLoad s.reboot).2 = s.reboot := by
      simp [certLoad, CertStore.reboot, hvalid]
    rw [hload, certRead, if_neg hvalid]
    simp [certGet, certLoad, CertStore.reboot, hvalid, retError_ne]

section Stored

variable {opens : Bool → Bool} {ulCertLen : UInt32} {pCert : List UInt8} {s : CertStore}

theorem certSet_cert1 : (certSet opens ulCertLen pCert s).2.file true =
    if certWritten opens (certID s) then
      certImage (writtenID (certID s)) ulCertLen pCert (s.file true)
    else s.file true :=
  certWrites_cert1 opens s.file

theorem certRead_certSet (hlen : pCert.length ≤ certMax) :
    certRead ((certSet opens ulCertLen pCert s).2.file true) = some pCert ↔
      if certWritten opens (certID s) then
        ulCertLen.toNat = pCert.length ∧ (writtenID (certID s)).toNat ≤ maxInt32
      else certRead (s.file true) = some pCert := by
  rw [certSet_cert1]
  split
  · exact certRead_certImage hlen
  · exact Iff.rfl

theorem CertStored.kept (h : CertStored opens ulCertLen pCert s) :
    CertKept opens ulCertLen pCert s := by
  have hlen : pCert.length ≤ certMax := by
    by_contra hlong
    exact (h.refused (by omega)).1 rfl
  have hbuff : pCert.length ≤ (UInt32.ofNat certMax).toNat := hlen
  have hget := h.read hlen _ hbuff
  exact ⟨hlen, (certRead_certSet hlen).mp ((certGet_reboot _ _ hbuff).mp hget)⟩

theorem CertKept.stored (h : CertKept opens ulCertLen pCert s) :
    CertStored opens ulCertLen pCert s where
  read hlen ulBuffLen hbuff := by
    apply (certGet_reboot _ ulBuffLen hbuff).mpr
    exact (certRead_certSet hlen).mpr h.2
  refused hlong := absurd h.1 (by omega)

variable (opens ulCertLen pCert s)

/-- Setting a certificate does what it is to do exactly where the certificate fits, the word on the
stack is its length and the identifiers are not used up; or where `cert1` is not written and holds
this certificate already. -/
theorem certStored_iff :
    CertStored opens ulCertLen pCert s ↔ CertKept opens ulCertLen pCert s :=
  ⟨CertStored.kept, CertKept.stored⟩

end Stored

/-- On blank flash, with a zero on the stack, a certificate of one byte is not there after a boot. -/
theorem certSet_lost : ¬ CertStored (fun _ => true) 0 [0x41] ⟨true, false, fun _ _ => 0xFF⟩ := by
  intro h
  have hkept : (0 : UInt32).toNat = [(0x41 : UInt8)].length := h.kept.2.1
  exact absurd hkept (by decide)

end EdgeNode.Config
