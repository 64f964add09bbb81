import EdgeNode.Lib.BufferAccess
import EdgeNode.Values.Text

/-! The reply of the power meter HEM12, and the digits in it. -/

namespace EdgeNode.Obj.Hem12

open BufferAccess Values

def retInvalidChecksum : Ret := 0x09

def frameStart : UInt8 := 0x69
def startCode : UInt8 := 0x69
def stopCode : UInt8 := 0x96

section Digits

/-- A byte of two digits, less what the meter adds to it, as a word. -/
def digits (base b : UInt8) : UInt32 :=
  let nValue := b.toUInt32 - base.toUInt32
  (nValue >>> 4) * 10 + (nValue &&& 0x0F)

/-- The number of the bytes, the first of them the highest. -/
def number (base : UInt8) (bytes : List UInt8) : UInt32 :=
  bytes.foldl (fun n b => n * 100 + digits base b) 0

/-- The byte less `base`, its halves read as two digits. -/
def pair (base b : UInt8) : Nat := (b - base).toNat / 16 * 10 + (b - base).toNat % 16

def decimal (base : UInt8) (bytes : List UInt8) : Nat :=
  bytes.foldl (fun n b => n * 100 + pair base b) 0

/-- Which of the bytes are below `base`, as a decimal number of pairs of digits. -/
def shortfall (base : UInt8) (bytes : List UInt8) : Nat :=
  bytes.foldl (fun n b => n * 100 + if b < base then 1 else 0) 0

theorem low_half (w : UInt32) : (w &&& 0x0F).toNat = w.toNat % 16 := by
  rw [UInt32.toNat_and]
  exact Nat.and_two_pow_sub_one_eq_mod w.toNat 4

/-- A byte below `base` borrows from the whole word. -/
theorem digits_toNat (base b : UInt8) : (digits base b).toNat =
    pair base b + 10 * (2 ^ 28 - 16) * if b < base then 1 else 0 := by
  have hb := b.toNat_lt
  have hbase := base.toNat_lt
  have hsub : (b.toUInt32 - base.toUInt32).toNat = (2 ^ 32 - base.toNat + b.toNat) % 2 ^ 32 := by
    rw [UInt32.toNat_sub, UInt8.toNat_toUInt32, UInt8.toNat_toUInt32]
  have hsub' : (b - base).toNat = (2 ^ 8 - base.toNat + b.toNat) % 2 ^ 8 := UInt8.toNat_sub b base
  have hshift : ((b.toUInt32 - base.toUInt32) >>> 4).toNat =
      (b.toUInt32 - base.toUInt32).toNat / 16 := by
    rw [UInt32.toNat_shiftRight, Nat.shiftRight_eq_div_pow]
    rfl
  have hten : (10 : UInt32).toNat = 10 := rfl
  rw [digits, pair, UInt32.toNat_add, UInt32.toNat_mul, hshift, low_half, hsub, hsub', hten]
  split
  next hlt =>
    rw [UInt8.lt_iff_toNat_lt] at hlt
    omega
  next hge =>
    rw [UInt8.lt_iff_toNat_lt] at hge
    omega

theorem number_toNat (base : UInt8) (bytes : List UInt8) : (number base bytes).toNat =
    (decimal base bytes + 10 * (2 ^ 28 - 16) * shortfall base bytes) % 2 ^ 32 := by
  have hfold : ∀ (w : UInt32) (n k : Nat), w.toNat = (n + 10 * (2 ^ 28 - 16) * k) % 2 ^ 32 →
      (bytes.foldl (fun n b => n * 100 + digits base b) w).toNat =
        (bytes.foldl (fun n b => n * 100 + pair base b) n + 10 * (2 ^ 28 - 16) *
          bytes.foldl (fun n b => n * 100 + if b < base then 1 else 0) k) % 2 ^ 32 := by
    induction bytes with
    | nil => exact fun w n k h => h
    | cons b bytes ih =>
      intro w n k h
      apply ih
      have hhundred : (100 : UInt32).toNat = 100 := rfl
      rw [UInt32.toNat_add, UInt32.toNat_mul, h, digits_toNat, hhundred]
      dsimp only
      omega
  exact hfold 0 0 0 rfl

end Digits

section Request

/-- `FTE_TASCON_HEM12_STATUS`. -/
structure Status where
  pValue : Values.Value
  xRet : Ret

def setULONG (v : Values.Value) (ulValue : UInt32) : Values.Value := (accept v ulValue).2

def refuse (xRet : Ret) : Access Status Ret :=
  call fun s => (xRet, { pValue := setValid s.pValue false, xRet := retError })

/-- The loop over the bytes `0xFE` before the frame. -/
def skip (i : Nat) : Nat → Access Status Nat
  | 0 => pure i
  | turns + 1 => do if (← peek i) = 0xFE then skip (i + 1) turns else pure i

/-- The length of the frame at `pHead`, if the first tests of it hold. -/
def frameLength (pHead ulRcvdLen : Nat) : Access Status (Option Nat) := do
  if ulRcvdLen < 14 then pure none
  else do
    let start ← peek pHead
    if start ≠ frameStart then pure none
    else do
      let code ← peek (pHead + 7)
      if code ≠ startCode then pure none
      else do
        let length ← peek (pHead + 9)
        if ulRcvdLen < 12 + length.toNat then pure none else pure (some (12 + length.toNat))

/-- `FTE_TASCON_HEM12_CRC` and the loop of the request. -/
def checksum (pData : List UInt8) : UInt8 := pData.foldl (· + ·) 0

/-- `FTE_TASCON_HEM12_request`, with `ulRcvdLen` bytes received. -/
def request (ulRcvdLen : Nat) : Access Status Ret := do
  call fun s => ((), { s with xRet := retOk })
  if ulRcvdLen = 0 then refuse retError
  else do
    let pHead ← skip 0 ulRcvdLen
    let length ← frameLength pHead (ulRcvdLen - pHead)
    match length with
    | none => refuse retInvalidChecksum
    | some ulRcvdLen => do
      let bytes ← peekBytes pHead (ulRcvdLen - 2)
      let nCS ← peek (pHead + (ulRcvdLen - 2))
      if nCS ≠ checksum bytes then refuse retInvalidChecksum
      else do
        let stop ← peek (pHead + (ulRcvdLen - 1))
        if stop ≠ stopCode then refuse retInvalidChecksum
        else do
          let b15 ← peek (pHead + 15)
          let b14 ← peek (pHead + 14)
          let b13 ← peek (pHead + 13)
          let b12 ← peek (pHead + 12)
          call fun s => (retOk,
            { s with pValue := setULONG s.pValue (number 0x33 [b15, b14, b13, b12] * 10) })

end Request

section Frames

/-- The first `k` of the `n` bytes are those before the frame. -/
structure Leads (mem : Nat → UInt8) (n k : Nat) : Prop where
  le : k ≤ n
  skipped : ∀ i < k, mem i = 0xFE
  ends : k < n → mem k ≠ 0xFE

/-- A frame at `k` as the tests want it, with its length at nine, its sum behind the data and the stop
code behind that. -/
structure Framed (mem : Nat → UInt8) (n k : Nat) : Prop where
  room : k + 14 ≤ n
  start : mem k = frameStart
  code : mem (k + 7) = startCode
  fits : k + (12 + (mem (k + 9)).toNat) ≤ n
  sum : mem (k + (10 + (mem (k + 9)).toNat)) = checksum (bytesAt mem k (10 + (mem (k + 9)).toNat))
  stop : mem (k + (11 + (mem (k + 9)).toNat)) = stopCode

/-- A complete frame has data for the two bytes of the identifier and the four of the value. -/
structure Complete (mem : Nat → UInt8) (n k : Nat) : Prop extends Framed mem n k where
  data : 6 ≤ (mem (k + 9)).toNat

/-- What a request is to leave of the bytes received: the value out of the data of a complete frame,
or the value marked as failed. -/
structure Stores (mem : Nat → UInt8) (n : Nat) (s : Status) (xRet : Ret) (s' : Status) : Prop where
  complete : ∀ k, Leads mem n k → Complete mem n k → xRet = retOk ∧ ∃ ulValue,
    s'.pValue = setULONG s.pValue ulValue ∧
      ulValue.toNat = 10 * decimal 0x33 [mem (k + 15), mem (k + 14), mem (k + 13), mem (k + 12)]
  other : ∀ k, Leads mem n k → ¬ Complete mem n k →
    xRet ≠ retOk ∧ s'.pValue = setValid s.pValue false

/-- The request reads received bytes only and stores as it is to. -/
def Answers (mem : Nat → UInt8) (n : Nat) (s : Status) : Prop :=
  Safe n 0 (request n) (Stores mem n s) mem s

end Frames

section Runs

variable {mem : Nat → UInt8} {n k i turns : Nat} {s : Status} {Q : Ret → Status → Prop}

def skipped (mem : Nat → UInt8) (i : Nat) : Nat → Nat
  | 0 => i
  | turns + 1 => if mem i = 0xFE then skipped mem (i + 1) turns else i

theorem safe_skip {Q : Nat → Status → Prop} (h : i + turns ≤ n) :
    Safe n 0 (skip i turns) Q mem s ↔ Q (skipped mem i turns) s := by
  induction turns generalizing i with
  | zero => rw [skip, safe_pure, skipped]
  | succ turns ih =>
    have hi : i < n := by omega
    have ih := @ih (i + 1) (by omega)
    rw [skip, safe_bind, safe_peek, and_iff_right hi, safe_ite, ih, safe_pure, skipped]
    split
    next heq => simp [heq]
    next hne => simp [hne]

theorem skipped_spec (mem : Nat → UInt8) (i turns : Nat) :
    i ≤ skipped mem i turns ∧ skipped mem i turns ≤ i + turns ∧
      (∀ j, i ≤ j → j < skipped mem i turns → mem j = 0xFE) ∧
      (skipped mem i turns < i + turns → mem (skipped mem i turns) ≠ 0xFE) := by
  induction turns generalizing i with
  | zero => exact ⟨Nat.le_refl i, Nat.le_refl i, fun j hi hj => absurd hj (Nat.not_lt_of_le hi),
      fun h => absurd h (Nat.lt_irrefl i)⟩
  | succ turns ih =>
    rw [skipped]
    split
    next heq =>
      obtain ⟨hle, hbound, hall, hend⟩ := ih (i + 1)
      refine ⟨by omega, by omega, fun j hi hj => ?_, fun h => hend (by omega)⟩
      obtain rfl | hlt := Nat.eq_or_lt_of_le hi
      · exact heq
      · exact hall j hlt hj
    next hne =>
      exact ⟨Nat.le_refl i, Nat.le_add_right i _, fun j hi hj => absurd hj (Nat.not_lt_of_le hi),
        fun _ => hne⟩

theorem leads_skipped (mem : Nat → UInt8) (n : Nat) : Leads mem n (skipped mem 0 n) := by
  obtain ⟨-, hle, hall, hend⟩ := skipped_spec mem 0 n
  rw [Nat.zero_add] at hle hend
  exact ⟨hle, fun i hi => hall i (Nat.zero_le i) hi, hend⟩

theorem Leads.unique {l : Nat} (h : Leads mem n k) (h' : Leads mem n l) : k = l := by
  rcases Nat.lt_trichotomy k l with hlt | heq | hgt
  · exact absurd (h'.skipped k hlt) (h.ends (Nat.lt_of_lt_of_le hlt h'.le))
  · exact heq
  · exact absurd (h.skipped l hgt) (h'.ends (Nat.lt_of_lt_of_le hgt h.le))

/-- The tests before the sum. -/
structure Headed (mem : Nat → UInt8) (n k : Nat) : Prop where
  room : k + 14 ≤ n
  start : mem k = frameStart
  code : mem (k + 7) = startCode
  fits : k + (12 + (mem (k + 9)).toNat) ≤ n

theorem safe_frameLength {Q : Option Nat → Status → Prop} (h : k ≤ n) :
    Safe n 0 (frameLength k (n - k)) Q mem s ↔
      (Headed mem n k → Q (some (12 + (mem (k + 9)).toNat)) s) ∧ (¬ Headed mem n k → Q none s) := by
  simp only [frameLength, safe_bind, safe_ite, safe_pure, safe_peek, ne_eq, Nat.not_lt]
  by_cases hroom : n - k < 14
  · have hno : ¬ Headed mem n k := fun hh => by
      have := hh.room
      omega
    simp only [hroom, hno, not_false_eq_true, true_implies, false_implies, and_true, true_and,
      Nat.not_le.mpr hroom]
  · have h0 : k < n := by omega
    have h7 : k + 7 < n := by omega
    have h9 : k + 9 < n := by omega
    simp only [hroom, Nat.le_of_not_lt hroom, h0, h7, h9, false_implies, true_implies, true_and]
    by_cases hstart : mem k = frameStart
    · by_cases hcode : mem (k + 7) = startCode
      · by_cases hfits : n - k < 12 + (mem (k + 9)).toNat
        · have hno : ¬ Headed mem n k := fun hh => by
            have := hh.fits
            omega
          simp [hstart, hcode, hfits, hno]
        · have hyes : Headed mem n k := ⟨by omega, hstart, hcode, by omega⟩
          simp [hstart, hcode, hfits, hyes, Nat.le_of_not_lt hfits]
      · have hno : ¬ Headed mem n k := fun hh => hcode hh.code
        simp [hstart, hcode, hno]
    · have hno : ¬ Headed mem n k := fun hh => hstart hh.start
      simp [hstart, hno]

/-- The request stores what stands behind a frame that passes the tests, whatever its length. -/
theorem safe_request (h : Leads mem n k) : Safe n 0 (request n) Q mem s ↔
    (Framed mem n k → k + 15 < n ∧ Q retOk ⟨setULONG s.pValue
      (number 0x33 [mem (k + 15), mem (k + 14), mem (k + 13), mem (k + 12)] * 10), retOk⟩) ∧
    (¬ Framed mem n k → Q (if n = 0 then retError else retInvalidChecksum)
      ⟨setValid s.pValue false, retError⟩) := by
  have hle := h.le
  have hskip : skipped mem 0 n = k := (leads_skipped mem n).unique h
  rw [request, safe_bind, safe_call, safe_ite]
  by_cases hn : n = 0
  · have hno : ¬ Framed mem n k := fun hf => by
      have := hf.room
      omega
    simp only [hn, true_implies, not_true_eq_false, false_implies, and_true, refuse, safe_call,
      if_pos]
    rw [hn] at hno
    simp only [hno, false_implies, true_and, not_false_eq_true, true_implies]
  · have hrange : 0 + n ≤ n := by omega
    rw [if_neg hn, safe_bind, safe_skip hrange, hskip, safe_bind, safe_frameLength hle]
    simp only [hn, false_implies, true_and, not_false_eq_true, true_implies]
    by_cases hh : Headed mem n k
    · have hfits := hh.fits
      have hroom := hh.room
      have hlen : 12 + (mem (k + 9)).toNat - 2 = 10 + (mem (k + 9)).toNat := by omega
      have hlen' : 12 + (mem (k + 9)).toNat - 1 = 11 + (mem (k + 9)).toNat := by omega
      have hbytes : k + (10 + (mem (k + 9)).toNat) ≤ n := by omega
      have hsum : k + (10 + (mem (k + 9)).toNat) < n := by omega
      have hstop : k + (11 + (mem (k + 9)).toNat) < n := by omega
      have h12 : k + 12 < n := by omega
      have h13 : k + 13 < n := by omega
      simp only [hh, true_implies, not_true_eq_false, false_implies, and_true, hlen, hlen', safe_bind,
        safe_peekBytes, safe_peek, safe_ite, safe_call, refuse, hbytes, hsum, hstop, h12, h13, or_true,
        true_and, ne_eq]
      by_cases hs : mem (k + (10 + (mem (k + 9)).toNat)) =
          checksum (bytesAt mem k (10 + (mem (k + 9)).toNat))
      · by_cases ht : mem (k + (11 + (mem (k + 9)).toNat)) = stopCode
        · have hf : Framed mem n k := ⟨hh.room, hh.start, hh.code, hh.fits, hs, ht⟩
          have h14 (h15 : k + 15 < n) : k + 14 < n := by omega
          simp only [hs, ht, hf, not_true_eq_false, false_implies, true_implies, true_and, and_true,
            not_false_eq_true]
          exact ⟨fun hq => ⟨hq.1, hq.2.2⟩, fun hq => ⟨hq.1, h14 hq.1, hq.2⟩⟩
        · have hno : ¬ Framed mem n k := fun hf => ht hf.stop
          simp only [hs, ht, hno, not_true_eq_false, false_implies, true_implies, true_and, and_true,
            not_false_eq_true]
      · have hno : ¬ Framed mem n k := fun hf => hs hf.sum
        simp only [hs, hno, not_true_eq_false, false_implies, true_implies, true_and, and_true,
          not_false_eq_true]
    · have hno : ¬ Framed mem n k := fun hf => hh ⟨hf.room, hf.start, hf.code, hf.fits⟩
      simp only [hh, hno, false_implies, true_and, not_false_eq_true, true_implies, refuse, safe_call]

end Runs

section Results

variable {mem : Nat → UInt8} {n k : Nat} {s : Status}

/-- The data of a frame are long enough for the value, and no byte of the value is below the 0x33 that
is taken from it. -/
def Readable (mem : Nat → UInt8) (k : Nat) : Prop :=
  6 ≤ (mem (k + 9)).toNat ∧ ∀ i < 4, ¬ mem (k + 12 + i) < 0x33

theorem decimal_four_lt (a b c d : UInt8) : decimal 0x33 [a, b, c, d] < 170000000 := by
  have hpair : ∀ x : UInt8, pair 0x33 x ≤ 165 := by
    intro x
    have hx := (x - 0x33).toNat_lt
    rw [pair]
    omega
  have ha := hpair a
  have hb := hpair b
  have hc := hpair c
  have hd := hpair d
  simp only [decimal, List.foldl_cons, List.foldl_nil]
  omega

theorem shortfall_four (a b c d : UInt8) : shortfall 0x33 [a, b, c, d] ≤ 1010101 ∧
    (shortfall 0x33 [a, b, c, d] = 0 ↔ ∀ x ∈ [a, b, c, d], ¬ x < 0x33) := by
  simp only [shortfall, List.foldl_cons, List.foldl_nil, List.forall_mem_cons, List.not_mem_nil,
    false_implies, implies_true, and_true]
  by_cases ha : a < 0x33 <;> by_cases hb : b < 0x33 <;> by_cases hc : c < 0x33 <;>
    by_cases hd : d < 0x33 <;> simp [ha, hb, hc, hd]

/-- Ten times the number of four bytes is a word, and it is that of their digits exactly when no byte
is below the base. -/
theorem number_four_iff (a b c d : UInt8) :
    (number 0x33 [a, b, c, d] * 10).toNat = 10 * decimal 0x33 [a, b, c, d] ↔
      ∀ x ∈ [a, b, c, d], ¬ x < 0x33 := by
  obtain ⟨hle, hzero⟩ := shortfall_four a b c d
  have hlt := decimal_four_lt a b c d
  have hten : (10 : UInt32).toNat = 10 := rfl
  rw [← hzero, UInt32.toNat_mul, number_toNat, hten]
  omega

theorem readable_iff : Readable mem k ↔ 6 ≤ (mem (k + 9)).toNat ∧
    ∀ x ∈ [mem (k + 15), mem (k + 14), mem (k + 13), mem (k + 12)], ¬ x < 0x33 := by
  rw [Readable]
  apply and_congr_right
  intro _
  simp only [List.forall_mem_cons, List.not_mem_nil, false_implies, implies_true, and_true]
  constructor
  · exact fun h => ⟨h 3 (by decide), h 2 (by decide), h 1 (by decide), h 0 (by decide)⟩
  · rintro ⟨h3, h2, h1, h0⟩ i hi
    interval_cases i
    · exact h0
    · exact h1
    · exact h2
    · exact h3

/-- The request stores as it is to exactly when the frame that passes its tests, if there is one, has
data for a value and no byte of the value is below what is taken from it. -/
theorem answers_iff (mem : Nat → UInt8) (n : Nat) (s : Status) :
    Answers mem n s ↔ ∀ k, Leads mem n k → Framed mem n k → Readable mem k := by
  obtain ⟨k, hk⟩ : ∃ k, Leads mem n k := ⟨_, leads_skipped mem n⟩
  have hone : (∀ l, Leads mem n l → Framed mem n l → Readable mem l) ↔
      (Framed mem n k → Readable mem k) :=
    ⟨fun h => h k hk, fun h l hl hf => by
      obtain rfl := hk.unique hl
      exact h hf⟩
  rw [Answers, safe_request hk, hone]
  by_cases hf : Framed mem n k
  · have hread := @readable_iff mem k
    simp only [hf, true_implies, not_true_eq_false, false_implies, and_true]
    by_cases hdata : 6 ≤ (mem (k + 9)).toNat
    · have hcomplete : Complete mem n k := ⟨hf, hdata⟩
      have hfits := hf.fits
      rw [hread, and_iff_right hdata, ← number_four_iff]
      constructor
      · rintro ⟨-, hstores⟩
        obtain ⟨-, ulValue, hsame, hvalue⟩ := hstores.complete k hk hcomplete
        have hword : number 0x33 [mem (k + 15), mem (k + 14), mem (k + 13), mem (k + 12)] * 10 =
          ulValue := congrArg Values.Value.xData hsame
        rw [hword, hvalue]
      · intro hvalue
        refine ⟨by omega, fun l hl _ => ?_, fun l hl hno => ?_⟩
        · obtain rfl := hk.unique hl
          exact ⟨rfl, _, rfl, hvalue⟩
        · obtain rfl := hk.unique hl
          exact absurd hcomplete hno
    · have hno : ¬ Complete mem n k := fun h => hdata h.data
      apply iff_of_false
      · rintro ⟨-, hstores⟩
        exact (hstores.other k hk hno).1 rfl
      · exact fun h => hdata h.1
  · have hno : ¬ Complete mem n k := fun h => hf h.toFramed
    simp only [hf, false_implies, true_and, not_false_eq_true, true_implies, iff_true]
    refine ⟨fun l hl hc => ?_, fun l _ _ => ⟨?_, rfl⟩⟩
    · obtain rfl := hk.unique hl
      exact absurd hc hno
    · split
      next => decide
      next => decide

/-- A frame without data, whose bytes after the stop code are then read as the value. -/
def emptyFrame : Nat → UInt8 := fun i =>
  [0x69, 0, 0, 0, 0, 0, 0, 0x69, 0x81, 0, 0x53, 0x96, 0, 0].getD i 0

theorem emptyFrame_stored :
    ¬ ∀ (mem : Nat → UInt8) (n : Nat) (s : Status), n ≤ 32 → Answers mem n s := by
  intro h
  have hanswers := h emptyFrame 14 ⟨⟨.pwrKw, true, 0, 0⟩, retOk⟩ (by decide)
  have hbehind := hanswers.1 15 (by decide +kernel)
  exact absurd hbehind (by decide)

end Results

end EdgeNode.Obj.Hem12
