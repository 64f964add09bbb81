import EdgeNode.Lib.Absorb

/-! Authentication of a text by the last block of a chain, over any cipher of blocks of sixteen bytes:
the last block of the text is masked with one of two keys that the cipher gives, by whether it had to
be filled up. -/

namespace BlockMac

open Absorb

abbrev Block := Vector UInt8 16

section Blocks

/-- The first byte is the highest. -/
def bits (b : Block) : BitVec 128 :=
  (BitVec.ofBoolListLE ((List.range 128).map fun i => (b[15 - i / 8]).toNat.testBit (i % 8))).setWidth 128

def ofBits (x : BitVec 128) : Block :=
  Vector.ofFn fun i => UInt8.ofBitVec (x.extractLsb' (8 * (15 - i)) 8)

theorem getLsbD_bits (b : Block) {i : Nat} (hi : i < 128) :
    (bits b).getLsbD i = (b[15 - i / 8]).toNat.testBit (i % 8) := by
  rw [bits, BitVec.getLsbD_setWidth, BitVec.getLsbD_ofBoolListLE]
  simp [hi]

theorem bits_ofBits (x : BitVec 128) : bits (ofBits x) = x := by
  apply BitVec.eq_of_getLsbD_eq
  intro i hi
  rw [getLsbD_bits _ hi, ofBits, Vector.getElem_ofFn]
  simp only [UInt8.toNat_ofBitVec, BitVec.testBit_toNat, BitVec.getLsbD_extractLsb']
  rw [decide_eq_true (Nat.mod_lt i (by decide)), Bool.true_and]
  congr 1
  omega

theorem bits_injective {a b : Block} (h : bits a = bits b) : a = b := by
  ext j hj
  apply Nat.eq_of_testBit_eq
  intro i
  by_cases hi : i < 8
  · have hbit := congrArg (fun x => x.getLsbD (8 * (15 - j) + i)) h
    simp only [getLsbD_bits _ (show 8 * (15 - j) + i < 128 by omega)] at hbit
    have hindex : 15 - (8 * (15 - j) + i) / 8 = j := by omega
    rw [show (8 * (15 - j) + i) % 8 = i by omega] at hbit
    simpa only [hindex] using hbit
  · have hle : 2 ^ 8 ≤ 2 ^ i := Nat.pow_le_pow_right Nat.two_pos (Nat.le_of_not_lt hi)
    rw [Nat.testBit_lt_two_pow (Nat.lt_of_lt_of_le a[j].toNat_lt hle),
      Nat.testBit_lt_two_pow (Nat.lt_of_lt_of_le b[j].toNat_lt hle)]

def block (l : List UInt8) : Block := Vector.ofFn fun i => l.getD i 0

def xor (a b : Block) : Block := a.zipWith (· ^^^ ·) b

/-- The product with `x` in the field of `2^128` elements. -/
def double (b : Block) : Block := ofBits ((bits b <<< 1) ^^^ if (bits b).msb then 0x87 else 0)

/-- A one and zeros up to a whole block. -/
def pad (l : List UInt8) : List UInt8 := l ++ 0x80 :: List.replicate (15 - l.length) 0

end Blocks

section Chain

variable (e : Block → Block)

def chain (x : Block) (l : List UInt8) : Block := e (xor x (block l))

def masked (l : List UInt8) : Block :=
  let key := double (e (block []))
  if l.length = 16 then xor (block l) key else xor (block (pad l)) (double key)

/-- All blocks but the last, which may be short, and empty for the empty text. -/
def mac (m : List UInt8) : Block :=
  let n := (m.length + 15) / 16 - 1
  e (xor ((List.range n).foldl (fun x i => chain e x ((m.drop (16 * i)).take 16)) (block []))
    (masked e (m.drop (16 * n))))

theorem mac_eq_absorb (m : List UInt8) : mac e m =
    e (xor (absorb (chain e) 16 17 (block []) m).1 (masked e (absorb (chain e) 16 17 (block []) m).2)) := by
  have hcount : (m.length + 15) / 16 - 1 = (m.length + 16 - 17) / 16 := by omega
  rw [absorb_eq _ m (by decide) (by decide), mac, hcount]

end Chain

end BlockMac
