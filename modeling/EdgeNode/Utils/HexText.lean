import EdgeNode.Lib.CString
import EdgeNode.Types

/-! Arrays of bytes from hexadecimal text. -/

namespace EdgeNode.Utils

open CString

def retInvalidArgument : Ret := 0x8A

/-- The value that the three ranges of characters give a digit. -/
def nibble (c : UInt8) : Option UInt8 :=
  if 48 ≤ c ∧ c ≤ 57 then some (c - 48)
  else if 65 ≤ c ∧ c ≤ 70 then some (c - 65 + 10)
  else if 97 ≤ c ∧ c ≤ 102 then some (c - 97 + 10)
  else none

/-- One pass of the second loop: the high digit is stored and taken up again by the low one. -/
def packByte (pBuff : List UInt8) (i : Nat) (hi lo : UInt8) : Option (List UInt8) := do
  let pBuff ← match nibble hi with
    | some d => poke pBuff i d
    | none => some pBuff
  match nibble lo with
  | some d => do
    let b ← pBuff[i]?
    poke pBuff i ((b <<< 4) + d)
  | none => some pBuff

def packBytes (pBuff : List UInt8) (i : Nat) : List UInt8 → Option (List UInt8)
  | [] => some pBuff
  | [_] => some pBuff
  | hi :: lo :: cs => do
    let pBuff ← packByte pBuff i hi lo
    packBytes pBuff (i + 1) cs

/-- What `FTE_strToHexArray` leaves in the buffer and in `*pLen`. -/
structure HexArray where
  xRet : Ret
  pBuff : List UInt8
  pLen : Nat
  deriving DecidableEq

/-- `FTE_strToHexArray`, without a value when it writes outside the memory at `pBuff`. -/
def strToHexArray (pString : Text) (pBuff : List UInt8) (ulBuffLen : Nat) : Option HexArray :=
  let ulStringLen := pString.val.length
  if ulStringLen % 2 = 1 ∨ ulStringLen / 2 > ulBuffLen then some ⟨retOk, pBuff, 0⟩
  else if pString.val.all fun c => (nibble c).isSome then do
    let pBuff ← packBytes pBuff 0 pString.val
    some ⟨retOk, pBuff, ulStringLen / 2⟩
  else some ⟨retInvalidArgument, pBuff, 0⟩

/-- A hexadecimal digit, as a capital letter or a small one. -/
def hexDigit (capital : Bool) (d : UInt8) : UInt8 :=
  if d < 10 then 48 + d else if capital then 55 + d else 87 + d

/-- The hexadecimal text of bytes, with the case of the letter at each place. -/
def hexText (capital : Nat → Bool) : List UInt8 → List UInt8
  | [] => []
  | b :: bs => hexDigit (capital 0) (b >>> 4) :: hexDigit (capital 1) (b &&& 15) ::
      hexText (fun i => capital (i + 2)) bs

section Digits

theorem nibble_hexDigit (capital : Bool) {d : UInt8} (hd : d < 16) :
    nibble (hexDigit capital d) = some d := by
  have hall : ∀ n < 16, nibble (hexDigit capital (UInt8.ofNat n)) = some (UInt8.ofNat n) := by
    cases capital <;> decide
  have hn : d.toNat < 16 := hd
  simpa using hall d.toNat hn

theorem hexDigit_ne_zero (capital : Bool) {d : UInt8} (hd : d < 16) : hexDigit capital d ≠ 0 := by
  intro h
  have hzero := nibble_hexDigit capital hd
  rw [h] at hzero
  have hnone : nibble 0 = none := by decide
  rw [hnone] at hzero
  cases hzero

theorem high_lt (b : UInt8) : b >>> 4 < 16 := by
  rw [UInt8.lt_iff_toNat_lt, UInt8.toNat_shiftRight, Nat.shiftRight_eq_div_pow]
  have hb := b.toNat_lt
  have hlt : b.toNat / 16 < 16 := by omega
  exact hlt

theorem low_lt (b : UInt8) : b &&& 15 < 16 := by
  rw [UInt8.lt_iff_toNat_lt, UInt8.toNat_and]
  exact Nat.lt_succ_of_le Nat.and_le_right

theorem high_low (b : UInt8) : ((b >>> 4) <<< 4) + (b &&& 15) = b := by
  have hall : ∀ n < 256, ((UInt8.ofNat n >>> 4) <<< 4) + (UInt8.ofNat n &&& 15) = UInt8.ofNat n := by
    decide +kernel
  simpa using hall b.toNat b.toNat_lt

end Digits

section Texts

variable {capital : Nat → Bool}

@[simp] theorem hexText_length (bs : List UInt8) : (hexText capital bs).length = 2 * bs.length := by
  induction bs generalizing capital with
  | nil => rfl
  | cons b bs ih =>
    simp only [hexText, List.length_cons, ih]
    omega

theorem hexText_digits {bs : List UInt8} {c : UInt8} (h : c ∈ hexText capital bs) :
    ∃ (u : Bool) (d : UInt8), d < 16 ∧ c = hexDigit u d := by
  induction bs generalizing capital with
  | nil => simp [hexText] at h
  | cons b bs ih =>
    rw [hexText, List.mem_cons, List.mem_cons] at h
    obtain rfl | rfl | h := h
    · exact ⟨_, _, high_lt b, rfl⟩
    · exact ⟨_, _, low_lt b, rfl⟩
    · exact ih h

/-- The hexadecimal text as a string: no digit is the terminator. -/
def hexString (capital : Nat → Bool) (bs : List UInt8) : Text :=
  ⟨hexText capital bs, fun h => by
    obtain ⟨u, d, hd, hz⟩ := hexText_digits h
    exact hexDigit_ne_zero u hd hz.symm⟩

theorem hexText_all (bs : List UInt8) :
    (hexText capital bs).all (fun c => (nibble c).isSome) = true := by
  rw [List.all_eq_true]
  intro c hc
  obtain ⟨u, d, hd, rfl⟩ := hexText_digits hc
  rw [nibble_hexDigit u hd]
  rfl

end Texts

section Packing

variable {pBuff : List UInt8} {i : Nat}

/-- The bytes that pairs of digits stand for. -/
def packed : List UInt8 → List UInt8
  | [] => []
  | [_] => []
  | hi :: lo :: cs => (((nibble hi).getD 0 <<< 4) + (nibble lo).getD 0) :: packed cs

@[simp] theorem packed_length (cs : List UInt8) : (packed cs).length = cs.length / 2 := by
  induction cs using packed.induct with
  | case1 => rfl
  | case2 => simp [packed]
  | case3 hi lo cs ih =>
    simp only [packed, List.length_cons, ih]
    omega

theorem packed_hexText (capital : Nat → Bool) (bs : List UInt8) :
    packed (hexText capital bs) = bs := by
  induction bs generalizing capital with
  | nil => rfl
  | cons b bs ih =>
    rw [hexText, packed, ih, nibble_hexDigit _ (high_lt b), nibble_hexDigit _ (low_lt b)]
    rw [Option.getD_some, Option.getD_some, high_low]

theorem packByte_eq {hi lo d e : UInt8} (hd : nibble hi = some d) (he : nibble lo = some e) :
    packByte pBuff i hi lo = poke pBuff i ((d <<< 4) + e) := by
  by_cases h : i < pBuff.length
  · simp [packByte, hd, he, poke, h]
  · simp [packByte, hd, poke, h]

/-- On digits the loop stores the bytes one after the other. -/
theorem packBytes_eq (cs : List UInt8) (h : ∀ c ∈ cs, (nibble c).isSome) :
    packBytes pBuff i cs = pokeBytes pBuff i (packed cs) := by
  induction cs using packed.induct generalizing pBuff i with
  | case1 => rfl
  | case2 => rfl
  | case3 hi lo cs ih =>
    obtain ⟨d, hd⟩ := Option.isSome_iff_exists.mp (h hi (by simp))
    obtain ⟨e, he⟩ := Option.isSome_iff_exists.mp (h lo (by simp))
    have hcs : ∀ c ∈ cs, (nibble c).isSome := fun c hc => h c (by simp [hc])
    rw [packBytes, packed, pokeBytes, packByte_eq hd he, hd, he]
    simp only [Option.getD_some, ih hcs]

end Packing

/-- What the function leaves of the memory is what it stored in front of what was there. -/
theorem strToHexArray_eq (pString : Text) (pBuff : List UInt8) {ulBuffLen : Nat}
    (h : ulBuffLen ≤ pBuff.length) : strToHexArray pString pBuff ulBuffLen = some
      (if pString.val.length % 2 = 1 ∨ pString.val.length / 2 > ulBuffLen then ⟨retOk, pBuff, 0⟩
        else if pString.val.all fun c => (nibble c).isSome then
          ⟨retOk, packed pString.val ++ pBuff.drop (pString.val.length / 2), pString.val.length / 2⟩
        else ⟨retInvalidArgument, pBuff, 0⟩) := by
  rw [strToHexArray]
  split
  next => rfl
  next hfit =>
    split
    next hall =>
      have hlen : 0 + (packed pString.val).length ≤ pBuff.length := by
        rw [packed_length]
        omega
      rw [List.all_eq_true] at hall
      rw [packBytes_eq _ hall, pokeBytes_eq _ _ _ (Nat.zero_le _), if_pos hlen]
      simp
    next => rfl

/-- The text of an array, in either case of the letters, gives the array back with its length; on any
string the buffer keeps its size and what lies behind the given length. -/
theorem strToHexArray_inverts :
    (∀ (capital : Nat → Bool) (bytes pBuff : List UInt8) (ulBuffLen : Nat),
      bytes.length ≤ ulBuffLen → ulBuffLen ≤ pBuff.length →
      strToHexArray (hexString capital bytes) pBuff ulBuffLen =
        some ⟨retOk, bytes ++ pBuff.drop bytes.length, bytes.length⟩) ∧
    ∀ (pString : Text) (pBuff : List UInt8) (ulBuffLen : Nat), ulBuffLen ≤ pBuff.length →
      ∃ r, strToHexArray pString pBuff ulBuffLen = some r ∧ r.pBuff.length = pBuff.length ∧
        r.pBuff.drop ulBuffLen = pBuff.drop ulBuffLen := by
  constructor
  · intro capital bytes pBuff ulBuffLen hlen hbuff
    have hsize : (hexString capital bytes).val.length = 2 * bytes.length := hexText_length bytes
    have hshape : ¬ (2 * bytes.length % 2 = 1 ∨ 2 * bytes.length / 2 > ulBuffLen) := by omega
    have hhalf : 2 * bytes.length / 2 = bytes.length := by omega
    have hall : (hexString capital bytes).val.all (fun c => (nibble c).isSome) = true := hexText_all bytes
    have hpacked : packed (hexString capital bytes).val = bytes := packed_hexText capital bytes
    rw [strToHexArray_eq _ _ hbuff, hsize, if_neg hshape, if_pos hall, hhalf, hpacked]
  · intro pString pBuff ulBuffLen hbuff
    refine ⟨_, strToHexArray_eq pString pBuff hbuff, ?_⟩
    split
    next => exact ⟨rfl, rfl⟩
    next hfit =>
      split
      next =>
        have hle : pString.val.length / 2 ≤ ulBuffLen := by omega
        constructor
        · rw [List.length_append, packed_length, List.length_drop]
          omega
        · rw [List.drop_append, List.drop_of_length_le (by simpa using hle), packed_length,
            List.drop_drop, List.nil_append]
          congr 1
          omega
      next => exact ⟨rfl, rfl⟩

/-- Two bytes with the letters in either case, into a buffer they fill, and a string that is not
hexadecimal. -/
theorem strToHexArray_exact_fit :
    strToHexArray (hexString (fun i => i % 2 = 1) [0x0A, 0xFB]) [0, 0] 2 =
      some ⟨retOk, [0x0A, 0xFB], 2⟩ ∧
    ∃ r, strToHexArray ⟨[49, 71], by decide⟩ [0] 1 = some r ∧ r.pBuff.length = 1 ∧
      r.pBuff.drop 1 = [] :=
  ⟨strToHexArray_inverts.1 _ [0x0A, 0xFB] [0, 0] 2 (by decide) (by decide),
    strToHexArray_inverts.2 ⟨[49, 71], by decide⟩ [0] 1 (by decide)⟩

end EdgeNode.Utils
