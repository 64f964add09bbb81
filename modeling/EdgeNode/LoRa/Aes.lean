import EdgeNode.Lib.ByteField

/-! The block cipher of the radio link, on bytes and with tables, with its precomputed key schedule
and its chaining. -/

namespace EdgeNode.LoRa.Aes

abbrev Block := Vector UInt8 16

section Tables

def wpoly : Nat := 0x011b

def f1 (x : Nat) : Nat := x

def f2 (x : Nat) : Nat := (x <<< 1) ^^^ (((x >>> 7) &&& 1) * wpoly)

def f4 (x : Nat) : Nat := (x <<< 2) ^^^ (((x >>> 6) &&& 1) * wpoly) ^^^ (((x >>> 6) &&& 2) * wpoly)

def f8 (x : Nat) : Nat :=
  (x <<< 3) ^^^ (((x >>> 5) &&& 1) * wpoly) ^^^ (((x >>> 5) &&& 2) * wpoly) ^^^
    (((x >>> 5) &&& 4) * wpoly)

def f3 (x : Nat) : Nat := f2 x ^^^ x

def f9 (x : Nat) : Nat := f8 x ^^^ x

def fb (x : Nat) : Nat := f8 x ^^^ f2 x ^^^ x

def fd (x : Nat) : Nat := f8 x ^^^ f4 x ^^^ x

def fe (x : Nat) : Nat := f8 x ^^^ f4 x ^^^ f2 x

def sbData : List Nat := [
  0x63, 0x7c, 0x77, 0x7b, 0xf2, 0x6b, 0x6f, 0xc5, 0x30, 0x01, 0x67, 0x2b, 0xfe, 0xd7, 0xab, 0x76,
  0xca, 0x82, 0xc9, 0x7d, 0xfa, 0x59, 0x47, 0xf0, 0xad, 0xd4, 0xa2, 0xaf, 0x9c, 0xa4, 0x72, 0xc0,
  0xb7, 0xfd, 0x93, 0x26, 0x36, 0x3f, 0xf7, 0xcc, 0x34, 0xa5, 0xe5, 0xf1, 0x71, 0xd8, 0x31, 0x15,
  0x04, 0xc7, 0x23, 0xc3, 0x18, 0x96, 0x05, 0x9a, 0x07, 0x12, 0x80, 0xe2, 0xeb, 0x27, 0xb2, 0x75,
  0x09, 0x83, 0x2c, 0x1a, 0x1b, 0x6e, 0x5a, 0xa0, 0x52, 0x3b, 0xd6, 0xb3, 0x29, 0xe3, 0x2f, 0x84,
  0x53, 0xd1, 0x00, 0xed, 0x20, 0xfc, 0xb1, 0x5b, 0x6a, 0xcb, 0xbe, 0x39, 0x4a, 0x4c, 0x58, 0xcf,
  0xd0, 0xef, 0xaa, 0xfb, 0x43, 0x4d, 0x33, 0x85, 0x45, 0xf9, 0x02, 0x7f, 0x50, 0x3c, 0x9f, 0xa8,
  0x51, 0xa3, 0x40, 0x8f, 0x92, 0x9d, 0x38, 0xf5, 0xbc, 0xb6, 0xda, 0x21, 0x10, 0xff, 0xf3, 0xd2,
  0xcd, 0x0c, 0x13, 0xec, 0x5f, 0x97, 0x44, 0x17, 0xc4, 0xa7, 0x7e, 0x3d, 0x64, 0x5d, 0x19, 0x73,
  0x60, 0x81, 0x4f, 0xdc, 0x22, 0x2a, 0x90, 0x88, 0x46, 0xee, 0xb8, 0x14, 0xde, 0x5e, 0x0b, 0xdb,
  0xe0, 0x32, 0x3a, 0x0a, 0x49, 0x06, 0x24, 0x5c, 0xc2, 0xd3, 0xac, 0x62, 0x91, 0x95, 0xe4, 0x79,
  0xe7, 0xc8, 0x37, 0x6d, 0x8d, 0xd5, 0x4e, 0xa9, 0x6c, 0x56, 0xf4, 0xea, 0x65, 0x7a, 0xae, 0x08,
  0xba, 0x78, 0x25, 0x2e, 0x1c, 0xa6, 0xb4, 0xc6, 0xe8, 0xdd, 0x74, 0x1f, 0x4b, 0xbd, 0x8b, 0x8a,
  0x70, 0x3e, 0xb5, 0x66, 0x48, 0x03, 0xf6, 0x0e, 0x61, 0x35, 0x57, 0xb9, 0x86, 0xc1, 0x1d, 0x9e,
  0xe1, 0xf8, 0x98, 0x11, 0x69, 0xd9, 0x8e, 0x94, 0x9b, 0x1e, 0x87, 0xe9, 0xce, 0x55, 0x28, 0xdf,
  0x8c, 0xa1, 0x89, 0x0d, 0xbf, 0xe6, 0x42, 0x68, 0x41, 0x99, 0x2d, 0x0f, 0xb0, 0x54, 0xbb, 0x16]

def isbData : List Nat := [
  0x52, 0x09, 0x6a, 0xd5, 0x30, 0x36, 0xa5, 0x38, 0xbf, 0x40, 0xa3, 0x9e, 0x81, 0xf3, 0xd7, 0xfb,
  0x7c, 0xe3, 0x39, 0x82, 0x9b, 0x2f, 0xff, 0x87, 0x34, 0x8e, 0x43, 0x44, 0xc4, 0xde, 0xe9, 0xcb,
  0x54, 0x7b, 0x94, 0x32, 0xa6, 0xc2, 0x23, 0x3d, 0xee, 0x4c, 0x95, 0x0b, 0x42, 0xfa, 0xc3, 0x4e,
  0x08, 0x2e, 0xa1, 0x66, 0x28, 0xd9, 0x24, 0xb2, 0x76, 0x5b, 0xa2, 0x49, 0x6d, 0x8b, 0xd1, 0x25,
  0x72, 0xf8, 0xf6, 0x64, 0x86, 0x68, 0x98, 0x16, 0xd4, 0xa4, 0x5c, 0xcc, 0x5d, 0x65, 0xb6, 0x92,
  0x6c, 0x70, 0x48, 0x50, 0xfd, 0xed, 0xb9, 0xda, 0x5e, 0x15, 0x46, 0x57, 0xa7, 0x8d, 0x9d, 0x84,
  0x90, 0xd8, 0xab, 0x00, 0x8c, 0xbc, 0xd3, 0x0a, 0xf7, 0xe4, 0x58, 0x05, 0xb8, 0xb3, 0x45, 0x06,
  0xd0, 0x2c, 0x1e, 0x8f, 0xca, 0x3f, 0x0f, 0x02, 0xc1, 0xaf, 0xbd, 0x03, 0x01, 0x13, 0x8a, 0x6b,
  0x3a, 0x91, 0x11, 0x41, 0x4f, 0x67, 0xdc, 0xea, 0x97, 0xf2, 0xcf, 0xce, 0xf0, 0xb4, 0xe6, 0x73,
  0x96, 0xac, 0x74, 0x22, 0xe7, 0xad, 0x35, 0x85, 0xe2, 0xf9, 0x37, 0xe8, 0x1c, 0x75, 0xdf, 0x6e,
  0x47, 0xf1, 0x1a, 0x71, 0x1d, 0x29, 0xc5, 0x89, 0x6f, 0xb7, 0x62, 0x0e, 0xaa, 0x18, 0xbe, 0x1b,
  0xfc, 0x56, 0x3e, 0x4b, 0xc6, 0xd2, 0x79, 0x20, 0x9a, 0xdb, 0xc0, 0xfe, 0x78, 0xcd, 0x5a, 0xf4,
  0x1f, 0xdd, 0xa8, 0x33, 0x88, 0x07, 0xc7, 0x31, 0xb1, 0x12, 0x10, 0x59, 0x27, 0x80, 0xec, 0x5f,
  0x60, 0x51, 0x7f, 0xa9, 0x19, 0xb5, 0x4a, 0x0d, 0x2d, 0xe5, 0x7a, 0x9f, 0x93, 0xc9, 0x9c, 0xef,
  0xa0, 0xe0, 0x3b, 0x4d, 0xae, 0x2a, 0xf5, 0xb0, 0xc8, 0xeb, 0xbb, 0x3c, 0x83, 0x53, 0x99, 0x61,
  0x17, 0x2b, 0x04, 0x7e, 0xba, 0x77, 0xd6, 0x26, 0xe1, 0x69, 0x14, 0x63, 0x55, 0x21, 0x0c, 0x7d]

/-- The bytes themselves, `0x00` to `0xff`. -/
def mmData : List Nat := List.range 256

/-- An entry of a table of bytes that was filled by one of the macros above. -/
def lookup (data : List Nat) (w : Nat → Nat) (x : UInt8) : UInt8 :=
  UInt8.ofNat (w (data.getD x.toNat 0))

def sBox (x : UInt8) : UInt8 := lookup sbData f1 x

def isBox (x : UInt8) : UInt8 := lookup isbData f1 x

def gfm2Sb (x : UInt8) : UInt8 := lookup sbData f2 x

def gfm3Sb (x : UInt8) : UInt8 := lookup sbData f3 x

def gfm9 (x : UInt8) : UInt8 := lookup mmData f9 x

def gfmB (x : UInt8) : UInt8 := lookup mmData fb x

def gfmD (x : UInt8) : UInt8 := lookup mmData fd x

def gfmE (x : UInt8) : UInt8 := lookup mmData fe x

end Tables

section Blocks

/-- The byte `b[i]`. -/
def byte (b : Block) (i : Nat) : UInt8 := b.toList.getD i 0

def setLast (b : Block) (x : UInt8) : Block := b.set 15 x

theorem byte_eq (b : Block) {i : Nat} (h : i < 16) : byte b i = b[i] := by
  rw [byte, List.getD_eq_getElem?_getD, List.getElem?_eq_getElem (by simpa using h), Option.getD_some,
    Vector.getElem_toList]

theorem byte_setLast (b : Block) (x : UInt8) {i : Nat} (h : i < 15) : byte (setLast b x) i = byte b i := by
  rw [byte_eq _ (by omega), byte_eq _ (by omega), setLast, Vector.getElem_set_ne _ (by omega) (by omega)]

/-- `xor_block` and `copy_and_key`. -/
def xorBlock (d s : Block) : Block := d.zipWith (· ^^^ ·) s

def shiftSubRows (st : Block) : Block := #v[
  sBox st[0], sBox st[5], sBox st[10], sBox st[15],
  sBox st[4], sBox st[9], sBox st[14], sBox st[3],
  sBox st[8], sBox st[13], sBox st[2], sBox st[7],
  sBox st[12], sBox st[1], sBox st[6], sBox st[11]]

def invShiftSubRows (st : Block) : Block := #v[
  isBox st[0], isBox st[13], isBox st[10], isBox st[7],
  isBox st[4], isBox st[1], isBox st[14], isBox st[11],
  isBox st[8], isBox st[5], isBox st[2], isBox st[15],
  isBox st[12], isBox st[9], isBox st[6], isBox st[3]]

def mixSubColumns (st : Block) : Block := #v[
  gfm2Sb st[0] ^^^ gfm3Sb st[5] ^^^ sBox st[10] ^^^ sBox st[15],
  sBox st[0] ^^^ gfm2Sb st[5] ^^^ gfm3Sb st[10] ^^^ sBox st[15],
  sBox st[0] ^^^ sBox st[5] ^^^ gfm2Sb st[10] ^^^ gfm3Sb st[15],
  gfm3Sb st[0] ^^^ sBox st[5] ^^^ sBox st[10] ^^^ gfm2Sb st[15],
  gfm2Sb st[4] ^^^ gfm3Sb st[9] ^^^ sBox st[14] ^^^ sBox st[3],
  sBox st[4] ^^^ gfm2Sb st[9] ^^^ gfm3Sb st[14] ^^^ sBox st[3],
  sBox st[4] ^^^ sBox st[9] ^^^ gfm2Sb st[14] ^^^ gfm3Sb st[3],
  gfm3Sb st[4] ^^^ sBox st[9] ^^^ sBox st[14] ^^^ gfm2Sb st[3],
  gfm2Sb st[8] ^^^ gfm3Sb st[13] ^^^ sBox st[2] ^^^ sBox st[7],
  sBox st[8] ^^^ gfm2Sb st[13] ^^^ gfm3Sb st[2] ^^^ sBox st[7],
  sBox st[8] ^^^ sBox st[13] ^^^ gfm2Sb st[2] ^^^ gfm3Sb st[7],
  gfm3Sb st[8] ^^^ sBox st[13] ^^^ sBox st[2] ^^^ gfm2Sb st[7],
  gfm2Sb st[12] ^^^ gfm3Sb st[1] ^^^ sBox st[6] ^^^ sBox st[11],
  sBox st[12] ^^^ gfm2Sb st[1] ^^^ gfm3Sb st[6] ^^^ sBox st[11],
  sBox st[12] ^^^ sBox st[1] ^^^ gfm2Sb st[6] ^^^ gfm3Sb st[11],
  gfm3Sb st[12] ^^^ sBox st[1] ^^^ sBox st[6] ^^^ gfm2Sb st[11]]

def invMixSubColumns (st : Block) : Block := #v[
  isBox (gfmE st[0] ^^^ gfmB st[1] ^^^ gfmD st[2] ^^^ gfm9 st[3]),
  isBox (gfm9 st[12] ^^^ gfmE st[13] ^^^ gfmB st[14] ^^^ gfmD st[15]),
  isBox (gfmD st[8] ^^^ gfm9 st[9] ^^^ gfmE st[10] ^^^ gfmB st[11]),
  isBox (gfmB st[4] ^^^ gfmD st[5] ^^^ gfm9 st[6] ^^^ gfmE st[7]),
  isBox (gfmE st[4] ^^^ gfmB st[5] ^^^ gfmD st[6] ^^^ gfm9 st[7]),
  isBox (gfm9 st[0] ^^^ gfmE st[1] ^^^ gfmB st[2] ^^^ gfmD st[3]),
  isBox (gfmD st[12] ^^^ gfm9 st[13] ^^^ gfmE st[14] ^^^ gfmB st[15]),
  isBox (gfmB st[8] ^^^ gfmD st[9] ^^^ gfm9 st[10] ^^^ gfmE st[11]),
  isBox (gfmE st[8] ^^^ gfmB st[9] ^^^ gfmD st[10] ^^^ gfm9 st[11]),
  isBox (gfm9 st[4] ^^^ gfmE st[5] ^^^ gfmB st[6] ^^^ gfmD st[7]),
  isBox (gfmD st[0] ^^^ gfm9 st[1] ^^^ gfmE st[2] ^^^ gfmB st[3]),
  isBox (gfmB st[12] ^^^ gfmD st[13] ^^^ gfm9 st[14] ^^^ gfmE st[15]),
  isBox (gfmE st[12] ^^^ gfmB st[13] ^^^ gfmD st[14] ^^^ gfm9 st[15]),
  isBox (gfm9 st[8] ^^^ gfmE st[9] ^^^ gfmB st[10] ^^^ gfmD st[11]),
  isBox (gfmD st[4] ^^^ gfm9 st[5] ^^^ gfmE st[6] ^^^ gfmB st[7]),
  isBox (gfmB st[0] ^^^ gfmD st[1] ^^^ gfm9 st[2] ^^^ gfmE st[3])]

end Blocks

section Cipher

structure AesContext where
  ksch : Vector UInt8 240
  rnd : UInt8
  deriving DecidableEq

/-- The four bytes `t0` to `t3`. -/
abbrev Word := Vector UInt8 4

variable (ctx : AesContext)

def roundKey (r : Nat) : Block := Vector.ofFn fun i => ctx.ksch.toList.getD (r * 16 + i) 0

def word (ksch : Vector UInt8 240) (pos : Nat) : Word :=
  Vector.ofFn fun i => ksch.toList.getD (pos + i) 0

def putWord (ksch : Vector UInt8 240) (pos : Nat) (t : Word) : Vector UInt8 240 :=
  Vector.ofFn fun i => if h : pos ≤ i ∧ i < pos + 4 then t[(⟨i - pos, by omega⟩ : Fin 4)] else ksch[i]

def xorWord (s t : Word) : Word := s.zipWith (· ^^^ ·) t

def sBoxWord (t : Word) : Word := #v[sBox t[0], sBox t[1], sBox t[2], sBox t[3]]

def sBoxTurned (t : Word) (rc : UInt8) : Word := #v[sBox t[1] ^^^ rc, sBox t[2], sBox t[3], sBox t[0]]

/-- One pass of the loop of `aes_set_key`: the schedule so far and `rc`. -/
def setKeyStep (keylen : Nat) (p : Vector UInt8 240 × UInt8) (cc : Nat) : Vector UInt8 240 × UInt8 :=
  let t := word p.1 (cc - 4)
  let q :=
    if cc % keylen = 0 then (sBoxTurned t p.2, UInt8.ofNat (f2 p.2.toNat))
    else if 24 < keylen ∧ cc % keylen = 16 then (sBoxWord t, p.2)
    else (t, p.2)
  (putWord p.1 cc (xorWord (word p.1 (cc - keylen)) q.1), q.2)

/-- `aes_set_key`, of whose key `keylen` bytes are read: whether it returned 0, and the context. -/
def setKey (key : List UInt8) (keylen : UInt8) : Bool × AesContext :=
  if keylen = 16 ∨ keylen = 24 ∨ keylen = 32 then
    let keylen := keylen.toNat
    let ksch := Vector.ofFn fun i => if i < keylen then key.getD i 0 else ctx.ksch[i]
    let hi := (keylen + 28) * 4
    (true, ⟨((List.range' keylen ((hi - keylen) / 4) 4).foldl (setKeyStep keylen) (ksch, 1)).1,
      UInt8.ofNat (hi / 16 - 1)⟩)
  else (false, { ctx with rnd := 0 })

/-- `aes_encrypt`: nothing is written without a schedule. -/
def encrypt (inp : Block) : Option Block :=
  if ctx.rnd ≠ 0 then
    let s1 := (List.range' 1 (ctx.rnd.toNat - 1)).foldl
      (fun s r => xorBlock (mixSubColumns s) (roundKey ctx r)) (xorBlock inp (roundKey ctx 0))
    some (xorBlock (shiftSubRows s1) (roundKey ctx ctx.rnd.toNat))
  else none

def decrypt (inp : Block) : Option Block :=
  if ctx.rnd ≠ 0 then
    let s1 := (List.range' 1 (ctx.rnd.toNat - 1)).reverse.foldl
      (fun s r => invMixSubColumns (xorBlock s (roundKey ctx r)))
      (invShiftSubRows (xorBlock inp (roundKey ctx ctx.rnd.toNat)))
    some (xorBlock s1 (roundKey ctx 0))
  else none

/-- `aes_cbc_encrypt`: the blocks written, and the chaining value. -/
def cbcEncrypt : List Block → Block → Option (List Block × Block)
  | [], iv => some ([], iv)
  | inp :: l, iv => do
    let iv ← encrypt ctx (xorBlock iv inp)
    let r ← cbcEncrypt l iv
    some (iv :: r.1, r.2)

def cbcDecrypt : List Block → Block → Option (List Block × Block)
  | [], iv => some ([], iv)
  | inp :: l, iv => do
    let out ← decrypt ctx inp
    let r ← cbcDecrypt l inp
    some (xorBlock out iv :: r.1, r.2)

end Cipher

end EdgeNode.LoRa.Aes
