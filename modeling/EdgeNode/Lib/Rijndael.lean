import EdgeNode.Lib.ByteField

/-! The Rijndael cipher on blocks of sixteen bytes, over the field of 256 elements. -/

namespace Rijndael

open ByteField

/-- By rows, then columns. -/
abbrev State := Fin 4 → Fin 4 → UInt8

scoped instance four_neZero : NeZero 4 := ⟨by decide⟩

section Definitions

/-- What a byte is multiplied with to give 1; zero has no inverse. -/
def inverses : List UInt8 := [
  0x00, 0x01, 0x8d, 0xf6, 0xcb, 0x52, 0x7b, 0xd1, 0xe8, 0x4f, 0x29, 0xc0, 0xb0, 0xe1, 0xe5, 0xc7,
  0x74, 0xb4, 0xaa, 0x4b, 0x99, 0x2b, 0x60, 0x5f, 0x58, 0x3f, 0xfd, 0xcc, 0xff, 0x40, 0xee, 0xb2,
  0x3a, 0x6e, 0x5a, 0xf1, 0x55, 0x4d, 0xa8, 0xc9, 0xc1, 0x0a, 0x98, 0x15, 0x30, 0x44, 0xa2, 0xc2,
  0x2c, 0x45, 0x92, 0x6c, 0xf3, 0x39, 0x66, 0x42, 0xf2, 0x35, 0x20, 0x6f, 0x77, 0xbb, 0x59, 0x19,
  0x1d, 0xfe, 0x37, 0x67, 0x2d, 0x31, 0xf5, 0x69, 0xa7, 0x64, 0xab, 0x13, 0x54, 0x25, 0xe9, 0x09,
  0xed, 0x5c, 0x05, 0xca, 0x4c, 0x24, 0x87, 0xbf, 0x18, 0x3e, 0x22, 0xf0, 0x51, 0xec, 0x61, 0x17,
  0x16, 0x5e, 0xaf, 0xd3, 0x49, 0xa6, 0x36, 0x43, 0xf4, 0x47, 0x91, 0xdf, 0x33, 0x93, 0x21, 0x3b,
  0x79, 0xb7, 0x97, 0x85, 0x10, 0xb5, 0xba, 0x3c, 0xb6, 0x70, 0xd0, 0x06, 0xa1, 0xfa, 0x81, 0x82,
  0x83, 0x7e, 0x7f, 0x80, 0x96, 0x73, 0xbe, 0x56, 0x9b, 0x9e, 0x95, 0xd9, 0xf7, 0x02, 0xb9, 0xa4,
  0xde, 0x6a, 0x32, 0x6d, 0xd8, 0x8a, 0x84, 0x72, 0x2a, 0x14, 0x9f, 0x88, 0xf9, 0xdc, 0x89, 0x9a,
  0xfb, 0x7c, 0x2e, 0xc3, 0x8f, 0xb8, 0x65, 0x48, 0x26, 0xc8, 0x12, 0x4a, 0xce, 0xe7, 0xd2, 0x62,
  0x0c, 0xe0, 0x1f, 0xef, 0x11, 0x75, 0x78, 0x71, 0xa5, 0x8e, 0x76, 0x3d, 0xbd, 0xbc, 0x86, 0x57,
  0x0b, 0x28, 0x2f, 0xa3, 0xda, 0xd4, 0xe4, 0x0f, 0xa9, 0x27, 0x53, 0x04, 0x1b, 0xfc, 0xac, 0xe6,
  0x7a, 0x07, 0xae, 0x63, 0xc5, 0xdb, 0xe2, 0xea, 0x94, 0x8b, 0xc4, 0xd5, 0x9d, 0xf8, 0x90, 0x6b,
  0xb1, 0x0d, 0xd6, 0xeb, 0xc6, 0x0e, 0xcf, 0xad, 0x08, 0x4e, 0xd7, 0xe3, 0x5d, 0x50, 0x1e, 0xb3,
  0x5b, 0x23, 0x38, 0x34, 0x68, 0x46, 0x03, 0x8c, 0xdd, 0x9c, 0x7d, 0xa0, 0xcd, 0x1a, 0x41, 0x1c]

def inverse (a : UInt8) : UInt8 := inverses.getD a.toNat 0

def rotate (b k : UInt8) : UInt8 := (b <<< k) ||| (b >>> (8 - k))

def affine (b : UInt8) : UInt8 :=
  b ^^^ rotate b 1 ^^^ rotate b 2 ^^^ rotate b 3 ^^^ rotate b 4 ^^^ 0x63

def subByte (a : UInt8) : UInt8 := affine (inverse a)

def invAffine (b : UInt8) : UInt8 := rotate b 1 ^^^ rotate b 3 ^^^ rotate b 6 ^^^ 0x05

def invSubByte (b : UInt8) : UInt8 := inverse (invAffine b)

def dot (m v : Fin 4 → UInt8) : UInt8 :=
  product (m 0) (v 0) ^^^ product (m 1) (v 1) ^^^ product (m 2) (v 2) ^^^ product (m 3) (v 3)

/-- The rows of a circulant matrix. -/
def circulant (c : Fin 4 → UInt8) (r k : Fin 4) : UInt8 := c (k - r)

section Layers

variable (s : State)

def subBytes : State := fun r c => subByte (s r c)

def invSubBytes : State := fun r c => invSubByte (s r c)

def shiftRows : State := fun r c => s r (c + r)

def invShiftRows : State := fun r c => s r (c - r)

def mixColumns : State := fun r c => dot (circulant ![2, 3, 1, 1] r) fun k => s k c

def invMixColumns : State := fun r c => dot (circulant ![14, 11, 13, 9] r) fun k => s k c

def addRoundKey (k : State) : State := fun r c => s r c ^^^ k r c

end Layers

section Rounds

variable (k : Nat → State) (nr : Nat) (s : State)

def round (s : State) (r : Nat) : State := addRoundKey (mixColumns (shiftRows (subBytes s))) (k r)

def invRound (s : State) (r : Nat) : State :=
  invMixColumns (addRoundKey (invSubBytes (invShiftRows s)) (k r))

def cipher : State :=
  addRoundKey (shiftRows (subBytes ((List.range' 1 (nr - 1)).foldl (round k) (addRoundKey s (k 0)))))
    (k nr)

def invCipher : State :=
  addRoundKey (invSubBytes (invShiftRows
    ((List.range' 1 (nr - 1)).reverse.foldl (invRound k) (addRoundKey s (k nr))))) (k 0)

end Rounds

section Keys

variable (nk : Nat) (key : Nat → Fin 4 → UInt8)

def subWord (w : Fin 4 → UInt8) : Fin 4 → UInt8 := fun j => subByte (w j)

def rotWord (w : Fin 4 → UInt8) : Fin 4 → UInt8 := fun j => w (j + 1)

def rcon (i : Nat) : Fin 4 → UInt8 := ![xtime^[i - 1] 1, 0, 0, 0]

/-- The words of the key schedule, from the `nk` words of the key. -/
def expand (i : Nat) : Fin 4 → UInt8 :=
  if _h : i < nk ∨ nk = 0 then key i
  else
    let temp := expand (i - 1)
    let temp :=
      if i % nk = 0 then fun j => subWord (rotWord temp) j ^^^ rcon (i / nk) j
      else if 6 < nk ∧ i % nk = 4 then subWord temp
      else temp
    fun j => expand (i - nk) j ^^^ temp j
termination_by i

def roundKey (r : Nat) : State := fun row col => expand nk key (4 * r + col) row

end Keys

end Definitions

section Bytes

/-- What is checked byte by byte. -/
theorem checked : inverses.length = 256 ∧
    inverses.zipIdx.all (fun p => p.2 == 0 || product (UInt8.ofNat p.2) p.1 == 1) = true ∧
    (∀ n < 256, invAffine (affine (UInt8.ofNat n)) = UInt8.ofNat n) ∧
    (∀ n < 256, affine (invAffine (UInt8.ofNat n)) = UInt8.ofNat n) ∧
    ∀ r j : Fin 4,
      dot (circulant ![14, 11, 13, 9] r) (fun k => circulant ![2, 3, 1, 1] k j) =
          (if j = r then 1 else 0) ∧
        dot (circulant ![2, 3, 1, 1] r) (fun k => circulant ![14, 11, 13, 9] k j) =
          (if j = r then 1 else 0) := by
  decide +kernel

theorem inverses_at (a : UInt8) : inverses[a.toNat]? = some (inverse a) :=
  table_at checked.1 a 0

theorem product_inverse {a : UInt8} (h : a ≠ 0) : product a (inverse a) = 1 := by
  have hat := List.all_eq_true.mp checked.2.1 _ (List.mk_mem_zipIdx_iff_getElem?.mpr (inverses_at a))
  rw [Bool.or_eq_true, beq_iff_eq, beq_iff_eq, UInt8.ofNat_toNat] at hat
  obtain hzero | hone := hat
  · exact absurd (UInt8.toNat_inj.mp hzero) h
  · exact hone

theorem eq_inverse {a b : UInt8} (h : product b a = 1) : b = inverse a := by
  have ha : a ≠ 0 := by
    rintro rfl
    rw [product_comm, zero_product] at h
    cases h
  calc
    b = product b (product a (inverse a)) := by rw [product_inverse ha, product_comm, one_product]
    _ = inverse a := by rw [← product_assoc, h, one_product]

theorem inverse_inverse (a : UInt8) : inverse (inverse a) = a := by
  by_cases h : a = 0
  · subst h
    rfl
  · exact (eq_inverse (product_inverse h)).symm

theorem invAffine_affine (a : UInt8) : invAffine (affine a) = a := by
  exact @forall_byte (fun a => invAffine (affine a) = a) checked.2.2.1 a

theorem affine_invAffine (a : UInt8) : affine (invAffine a) = a := by
  exact @forall_byte (fun a => affine (invAffine a) = a) checked.2.2.2.1 a

theorem invSubByte_subByte (a : UInt8) : invSubByte (subByte a) = a := by
  rw [invSubByte, subByte, invAffine_affine, inverse_inverse]

theorem subByte_invSubByte (a : UInt8) : subByte (invSubByte a) = a := by
  rw [invSubByte, subByte, inverse_inverse, affine_invAffine]

end Bytes

section Columns

variable (m v : Fin 4 → UInt8)

theorem dot_dot (n : Fin 4 → Fin 4 → UInt8) :
    dot m (fun k => dot (n k) v) = dot (fun j => dot m fun k => n k j) v := by
  simp only [dot, product_xor, xor_product, product_assoc]
  ac_rfl

theorem dot_unit (r : Fin 4) : dot (fun j => if j = r then 1 else 0) v = v r := by
  fin_cases r <;> simp [dot, one_product, zero_product]

theorem circulant_inverse (r j : Fin 4) :
    dot (circulant ![14, 11, 13, 9] r) (fun k => circulant ![2, 3, 1, 1] k j) = (if j = r then 1 else 0) ∧
      dot (circulant ![2, 3, 1, 1] r) (fun k => circulant ![14, 11, 13, 9] k j) =
        (if j = r then 1 else 0) :=
  checked.2.2.2.2 r j

end Columns

section Layers

variable (s : State)

@[simp] theorem invSubBytes_subBytes : invSubBytes (subBytes s) = s :=
  funext fun r => funext fun c => invSubByte_subByte (s r c)

@[simp] theorem subBytes_invSubBytes : subBytes (invSubBytes s) = s :=
  funext fun r => funext fun c => subByte_invSubByte (s r c)

@[simp] theorem invShiftRows_shiftRows : invShiftRows (shiftRows s) = s := by
  funext r c
  rw [invShiftRows, shiftRows, sub_add_cancel]

@[simp] theorem shiftRows_invShiftRows : shiftRows (invShiftRows s) = s := by
  funext r c
  rw [shiftRows, invShiftRows, add_sub_cancel_right]

@[simp] theorem invMixColumns_mixColumns : invMixColumns (mixColumns s) = s := by
  funext r c
  simp only [invMixColumns, mixColumns, dot_dot, (circulant_inverse r _).1, dot_unit]

@[simp] theorem mixColumns_invMixColumns : mixColumns (invMixColumns s) = s := by
  funext r c
  simp only [invMixColumns, mixColumns, dot_dot, (circulant_inverse r _).2, dot_unit]

@[simp] theorem addRoundKey_addRoundKey (k : State) : addRoundKey (addRoundKey s k) k = s := by
  funext r c
  rw [addRoundKey, addRoundKey, UInt8.xor_assoc, UInt8.xor_self, UInt8.xor_zero]

end Layers

section Rounds

variable (k : Nat → State) (nr : Nat) (s : State)

/-- Between two rounds the decryption has its substitution still before it. -/
theorem foldl_invRound (l : List Nat) :
    l.reverse.foldl (invRound k) (shiftRows (subBytes (l.foldl (round k) s))) =
    shiftRows (subBytes s) := by
  induction l generalizing s with
  | nil => rfl
  | cons r l ih =>
    rw [List.foldl_cons, List.reverse_cons, List.foldl_concat, ih, invRound]
    simp [round]

theorem foldl_round (l : List Nat) :
    l.foldl (round k) (invSubBytes (invShiftRows (l.reverse.foldl (invRound k) s))) =
    invSubBytes (invShiftRows s) := by
  induction l using List.reverseRecOn generalizing s with
  | nil => rfl
  | append_singleton l r ih =>
    rw [List.reverse_concat, List.foldl_cons, List.foldl_concat, ih, round]
    simp [invRound]

theorem cipher_congr {k k' : Nat → State} {nr : Nat} (h : ∀ r ≤ nr, k r = k' r) (s : State) :
    cipher k nr s = cipher k' nr s := by
  have hfold (l : List Nat) (hl : ∀ r ∈ l, r ≤ nr) (s : State) :
      l.foldl (round k) s = l.foldl (round k') s := by
    refine List.foldl_ext _ _ _ fun s r hr => ?_
    rw [round, round, h r (hl r hr)]
  rw [cipher, cipher, h 0 (Nat.zero_le nr), h nr le_rfl, hfold]
  intro r hr
  rw [List.mem_range'_1] at hr
  omega

theorem invCipher_cipher : invCipher k nr (cipher k nr s) = s := by
  rw [invCipher, cipher, addRoundKey_addRoundKey, foldl_invRound]
  simp

theorem cipher_invCipher : cipher k nr (invCipher k nr s) = s := by
  rw [invCipher, cipher, addRoundKey_addRoundKey, foldl_round]
  simp

end Rounds

end Rijndael
