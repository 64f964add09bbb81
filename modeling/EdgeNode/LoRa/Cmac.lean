import EdgeNode.LoRa.KeySchedule
import EdgeNode.Lib.BlockMac

/-! The authentication code of the radio link, which takes its text piece by piece. -/

namespace EdgeNode.LoRa.Cmac

open Aes Absorb ByteField

structure AesCmacCtx where
  rijndael : AesContext
  X : Block
  mLast : Block
  mN : Nat

section Program

/-- `aes_encrypt` in place, whose result is not looked at. -/
def cipherBlock (rijndael : AesContext) (b : Block) : Block := (encrypt rijndael b).getD b

/-- `memcpy1(r + pos, data, data.length)`. -/
def copyTo (r : Block) (pos : Nat) (data : List UInt8) : Block :=
  Vector.ofFn fun i => if pos ≤ i.val ∧ i.val < pos + data.length then data.getD (i - pos) 0 else r[i]

/-- The first sixteen bytes at a pointer. -/
def blockAt (data : List UInt8) : Block := Vector.ofFn fun i => data.getD i 0

/-- The macro `LSHIFT`. -/
def lshift (v : Block) : Block :=
  Vector.ofFn fun i => if h : i.val < 15 then (v[i] <<< 1) ||| (v[i.val + 1] >>> 7) else v[15] <<< 1

def init (ctx : AesCmacCtx) : AesCmacCtx :=
  { ctx with X := Vector.replicate 16 0, mN := 0, rijndael.ksch := Vector.replicate 240 0 }

def setKey (ctx : AesCmacCtx) (key : Block) : AesCmacCtx :=
  { ctx with rijndael := (Aes.setKey ctx.rijndael key.toList 16).2 }

/-- A pass of `while (len > 16)`. -/
def updateStep (rijndael : AesContext) (x : Block) (data : List UInt8) : Block :=
  cipherBlock rijndael (xorBlock x (blockAt data))

/-- `AES_CMAC_Update` once `M_last` was used up. -/
def updateRest (ctx : AesCmacCtx) (data : List UInt8) : AesCmacCtx :=
  let r := absorb (updateStep ctx.rijndael) 16 17 ctx.X data
  { ctx with X := r.1, mLast := copyTo ctx.mLast 0 r.2, mN := r.2.length }

def update (ctx : AesCmacCtx) (data : List UInt8) : AesCmacCtx :=
  if 0 < ctx.mN then
    let mlen := min (16 - ctx.mN) data.length
    let ctx := { ctx with mLast := copyTo ctx.mLast ctx.mN (data.take mlen), mN := ctx.mN + mlen }
    if ctx.mN < 16 ∨ data.length = mlen then ctx
    else
      updateRest { ctx with X := cipherBlock ctx.rijndael (xorBlock ctx.X ctx.mLast) } (data.drop mlen)
  else updateRest ctx data

/-- The next subkey. -/
def subkey (k : Block) : Block :=
  if byte k 0 &&& 0x80 ≠ 0 then setLast (lshift k) (byte (lshift k) 15 ^^^ 0x87) else lshift k

/-- `padding(M_last)`. -/
def padding (ctx : AesCmacCtx) : Block :=
  Vector.ofFn fun i => if i.val < ctx.mN then ctx.mLast[i] else if i.val = ctx.mN then 0x80 else 0

/-- `AES_CMAC_Final`: the digest and the context. -/
def final (digest : Block) (ctx : AesCmacCtx) : Block × AesCmacCtx :=
  let k := subkey (cipherBlock ctx.rijndael (Vector.replicate 16 0))
  let mLast := if ctx.mN = 16 then xorBlock ctx.mLast k else xorBlock (padding ctx) (subkey k)
  let X := xorBlock ctx.X mLast
  ((encrypt ctx.rijndael X).getD digest, { ctx with X, mLast, mN := 16 })

end Program

section Subkeys

theorem testBit_shiftRight (a : UInt8) (j : Nat) :
    (a >>> 7).toNat.testBit j = (decide (j = 0) && a.toNat.testBit 7) := by
  rw [UInt8.toNat_shiftRight, show (7 : UInt8).toNat % 8 = 7 from rfl, Nat.testBit_shiftRight]
  by_cases hj : j = 0
  · subst hj
    rfl
  · have hle : 2 ^ 8 ≤ 2 ^ (7 + j) := Nat.pow_le_pow_right Nat.two_pos (by omega)
    rw [Nat.testBit_lt_two_pow (Nat.lt_of_lt_of_le a.toNat_lt hle), decide_eq_false hj, Bool.false_and]

theorem bits_lshift (v : Block) : BlockMac.bits (lshift v) = BlockMac.bits v <<< 1 := by
  apply BitVec.eq_of_getLsbD_eq
  intro i hi
  rw [BlockMac.getLsbD_bits _ hi, BitVec.getLsbD_shiftLeft, decide_eq_true hi, Bool.true_and, lshift,
    Vector.getElem_ofFn]
  have hmod := Nat.mod_lt i (show 0 < 8 by decide)
  obtain rfl | hpos := Nat.eq_zero_or_pos i
  · rw [dif_neg (by simp), testBit_shiftLeft _ hmod]
    simp
  · rw [decide_eq_false (by omega), Bool.not_false, Bool.true_and, BlockMac.getLsbD_bits _ (by omega)]
    by_cases hj : i % 8 = 0
    -- the low bit of a byte is the high one of the next
    · rw [dif_pos (by dsimp only; omega), UInt8.toNat_or, Nat.testBit_or, testBit_shiftLeft _ hmod,
        testBit_shiftRight, decide_eq_false (by omega), decide_eq_true hj, Bool.false_and, Bool.false_or,
        Bool.true_and]
      have hindex : 15 - (i - 1) / 8 = 15 - i / 8 + 1 := by omega
      have hbit : (i - 1) % 8 = 7 := by omega
      simp only [hindex, hbit]
    · have hshift (a : UInt8) : (a <<< 1).toNat.testBit (i % 8) = a.toNat.testBit ((i - 1) % 8) := by
        rw [testBit_shiftLeft _ hmod, decide_eq_true (by omega), Bool.true_and,
          show i % 8 - 1 = (i - 1) % 8 by omega]
      have hindex : (i - 1) / 8 = i / 8 := by omega
      simp only [hindex]
      split
      · rw [UInt8.toNat_or, Nat.testBit_or, hshift, testBit_shiftRight, decide_eq_false hj, Bool.false_and,
          Bool.or_false]
        rfl
      · rename_i hlast
        rw [hshift]
        have hle : 15 ≤ 15 - i / 8 := Nat.not_lt.mp hlast
        have hzero : i / 8 = 0 := by omega
        simp only [hzero, Nat.sub_zero]

theorem msb_bits (k : Block) : (BlockMac.bits k).msb = true ↔ byte k 0 &&& 0x80 ≠ 0 := by
  have hbyte : ∀ n < 256, (UInt8.ofNat n).toNat.testBit 7 = true ↔ UInt8.ofNat n &&& 0x80 ≠ 0 := by
    decide +kernel
  rw [BitVec.msb_eq_getLsbD_last, BlockMac.getLsbD_bits _ (by decide), byte_eq k (by decide)]
  exact @forall_byte (fun a => a.toNat.testBit 7 = true ↔ a &&& 0x80 ≠ 0) hbyte k[0]

theorem bits_setLast (v : Block) :
    BlockMac.bits (setLast v (byte v 15 ^^^ 0x87)) = BlockMac.bits v ^^^ 0x87 := by
  rw [setLast, byte_eq v (by decide)]
  apply BitVec.eq_of_getLsbD_eq
  intro i hi
  rw [BlockMac.getLsbD_bits _ hi, BitVec.getLsbD_xor, BlockMac.getLsbD_bits _ hi, Vector.getElem_set]
  rw [show (0x87 : BitVec 128).getLsbD i = (0x87 : Nat).testBit i from BitVec.testBit_toNat 0x87]
  split
  · have hlow : i / 8 = 0 ∧ i % 8 = i := by omega
    rw [UInt8.toNat_xor, Nat.testBit_xor]
    simp only [hlow, Nat.sub_zero]
    rfl
  · have hle : 2 ^ 8 ≤ 2 ^ i := Nat.pow_le_pow_right Nat.two_pos (by omega)
    rw [Nat.testBit_lt_two_pow (Nat.lt_of_lt_of_le (by decide : 0x87 < 2 ^ 8) hle), Bool.xor_false]

theorem subkey_eq (k : Block) : subkey k = BlockMac.double k := by
  apply BlockMac.bits_injective
  rw [BlockMac.double, BlockMac.bits_ofBits, subkey]
  split
  · rename_i h
    rw [bits_setLast, bits_lshift, if_pos ((msb_bits k).mpr h)]
  · rename_i h
    rw [bits_lshift, if_neg (mt (msb_bits k).mp h)]
    exact BitVec.xor_zero.symm

end Subkeys

section Streams

variable {ctx : AesCmacCtx} {x : Block} {held : List UInt8}

/-- The context once a text was taken, of which the bytes `held` are not chained yet. -/
structure Holds (ctx : AesCmacCtx) (x : Block) (held : List UInt8) : Prop where
  x : ctx.X = x
  mN_le : ctx.mN ≤ 16
  mLast : ctx.mLast.toList.take ctx.mN = held

theorem Holds.length (h : Holds ctx x held) : held.length = ctx.mN := by
  rw [← h.mLast, List.length_take, Vector.length_toList, Nat.min_eq_left h.mN_le]

theorem take_copyTo (r : Block) (pos : Nat) (data : List UInt8) (h : pos + data.length ≤ 16) :
    (copyTo r pos data).toList.take (pos + data.length) = r.toList.take pos ++ data := by
  apply List.ext_getElem
  · simp
    omega
  · intro i hi hi'
    rw [List.length_take, Vector.length_toList] at hi
    have hlen : (r.toList.take pos).length = pos := by
      rw [List.length_take, Vector.length_toList]
      omega
    rw [List.getElem_take, Vector.getElem_toList, List.getElem_append]
    simp only [copyTo, Vector.getElem_ofFn, hlen]
    by_cases hlt : i < pos
    · rw [if_neg (by omega), dif_pos hlt, List.getElem_take, Vector.getElem_toList]
      rfl
    · rw [if_pos (by omega), dif_neg hlt, List.getD_eq_getElem?_getD, List.getElem?_eq_getElem (by omega)]
      rfl

theorem take_toList (b : Block) : b.toList.take 16 = b.toList :=
  List.take_of_length_le (by rw [Vector.length_toList])

theorem blockAt_toList (b : Block) : blockAt b.toList = b := by
  ext i hi
  simp [blockAt]

theorem updateRest_holds (ctx : AesCmacCtx) (data : List UInt8) :
    Holds (updateRest ctx data) (absorb (updateStep ctx.rijndael) 16 17 ctx.X data).1
      (absorb (updateStep ctx.rijndael) 16 17 ctx.X data).2 := by
  have hlen := absorb_length (f := updateStep ctx.rijndael) ctx.X data (by decide : 0 < 16)
    (by decide : 16 ≤ 17)
  have hcopy := take_copyTo ctx.mLast 0 _
    (by omega : 0 + (absorb (updateStep ctx.rijndael) 16 17 ctx.X data).2.length ≤ 16)
  rw [Nat.zero_add, List.take_zero, List.nil_append] at hcopy
  exact ⟨rfl, Nat.le_of_lt_succ hlen, hcopy⟩

theorem update_holds (h : Holds ctx x held) (data : List UInt8) : Holds (update ctx data)
    (absorb (updateStep ctx.rijndael) 16 17 x (held ++ data)).1
      (absorb (updateStep ctx.rijndael) 16 17 x (held ++ data)).2 := by
  have hlen := h.length
  have hle := h.mN_le
  rw [update]
  split
  · dsimp only
    have hcopy := take_copyTo ctx.mLast ctx.mN (data.take (min (16 - ctx.mN) data.length))
      (by rw [List.length_take]; omega)
    rw [h.mLast, List.length_take, Nat.min_eq_left (Nat.min_le_right _ _)] at hcopy
    split
    · rename_i hshort
      have hall : min (16 - ctx.mN) data.length = data.length := by omega
      have hlt : (held ++ data).length < 17 := by
        rw [List.length_append]
        omega
      rw [absorb_of_lt x _ hlt]
      rw [hall, List.take_length] at hcopy ⊢
      exact ⟨h.x, by dsimp only; omega, hcopy⟩
    · rename_i hlong
      have hmin : min (16 - ctx.mN) data.length = 16 - ctx.mN := by omega
      rw [hmin] at hcopy hlong ⊢
      rw [Nat.add_sub_cancel' hle] at hcopy
      have hge : 17 ≤ (held ++ data).length := by
        rw [List.length_append]
        omega
      have hblock : copyTo ctx.mLast ctx.mN (data.take (16 - ctx.mN)) =
          blockAt ((held ++ data).take 16) := by
        rw [List.take_append, hlen, List.take_of_length_le (show held.length ≤ 16 by omega), ← hcopy,
          take_toList, blockAt_toList]
      have hdrop : (held ++ data).drop 16 = data.drop (16 - ctx.mN) := by
        rw [List.drop_append, hlen, List.drop_eq_nil_of_le (by omega), List.nil_append]
      rw [absorb_of_le x _ (by decide) (by decide) hge, hdrop, updateStep, ← hblock, ← h.x]
      exact updateRest_holds _ _
  · rename_i hzero
    have hnil : held = [] := List.length_eq_zero_iff.mp (by omega)
    rw [hnil, List.nil_append, ← h.x]
    exact updateRest_holds ctx data

theorem update_rijndael (ctx : AesCmacCtx) (data : List UInt8) :
    (update ctx data).rijndael = ctx.rijndael := by
  rw [update]
  dsimp only
  split_ifs <;> rfl

theorem updates_holds (h : Holds ctx x held) (chunks : List (List UInt8)) :
    (chunks.foldl update ctx).rijndael = ctx.rijndael ∧ Holds (chunks.foldl update ctx)
      (chunks.foldl (fun p c => absorb (updateStep ctx.rijndael) 16 17 p.1 (p.2 ++ c)) (x, held)).1
      (chunks.foldl (fun p c => absorb (updateStep ctx.rijndael) 16 17 p.1 (p.2 ++ c)) (x, held)).2 := by
  induction chunks generalizing ctx x held with
  | nil => exact ⟨rfl, h⟩
  | cons c chunks ih =>
    have hr := update_rijndael ctx c
    have hnext := ih (update_holds h c)
    rw [hr] at hnext
    exact hnext

theorem block_nil : BlockMac.block [] = Vector.replicate 16 0 := rfl

theorem Holds.padding (h : Holds ctx x held) (hlt : ctx.mN < 16) :
    BlockMac.block (BlockMac.pad held) = padding ctx := by
  have hlen := h.length
  apply Vector.ext
  intro i hi
  rw [BlockMac.block, Cmac.padding, Vector.getElem_ofFn, Vector.getElem_ofFn, BlockMac.pad,
    List.getD_eq_getElem?_getD]
  dsimp only
  split_ifs with hheld hmark
  · have hat : ctx.mLast.toList[i]? = some ctx.mLast[i] := by
      rw [List.getElem?_eq_getElem (by rwa [Vector.length_toList]), Vector.getElem_toList]
    rw [List.getElem?_append_left (by omega), ← h.mLast, List.getElem?_take_of_lt hheld, hat]
    rfl
  · rw [List.getElem?_append_right (by omega), show i - held.length = 0 by omega]
    rfl
  · rw [List.getElem?_append_right (by omega), show i - held.length = (i - held.length - 1) + 1 by omega,
      List.getElem?_cons_succ, List.getElem?_replicate_of_lt (by omega)]
    rfl

/-- The last block is masked as it was held back. -/
theorem Holds.final (h : Holds ctx x held) (digest : Block) : (final digest ctx).1 =
    (encrypt ctx.rijndael (xorBlock x (BlockMac.masked (cipherBlock ctx.rijndael) held))).getD digest := by
  have hkey : subkey (cipherBlock ctx.rijndael (Vector.replicate 16 0)) =
      BlockMac.double (cipherBlock ctx.rijndael (BlockMac.block [])) := by
    rw [subkey_eq, block_nil]
  rw [Cmac.final, hkey, h.x, BlockMac.masked, h.length]
  split
  · rename_i hfull
    have hblock : BlockMac.block held = ctx.mLast := by
      rw [← h.mLast, hfull, take_toList]
      exact blockAt_toList ctx.mLast
    rw [hblock]
    rfl
  · have hle := h.mN_le
    rw [h.padding (by omega), subkey_eq]
    rfl

end Streams

/-- The block cipher under a key of the link. -/
def cipher128 (key b : Block) : Block :=
  ofState (Rijndael.cipher (Rijndael.roundKey 4 (keyWords key.toList)) 10 (state b))

theorem encrypt_setKey128 (rijndael : AesContext) (key b : Block) :
    encrypt (Aes.setKey rijndael key.toList 16).2 b = some (cipher128 key b) := by
  rw [encrypt_setKey, if_pos (Or.inl rfl)]
  rfl

/-- However a text is cut, the digest is the code of the whole, whatever was in the context. -/
theorem final_chunks (ctx : AesCmacCtx) (key digest : Block) (chunks : List (List UInt8)) :
    (final digest (chunks.foldl update (setKey (init ctx) key))).1 =
      BlockMac.mac (cipher128 key) chunks.flatten := by
  have hstart : Holds (setKey (init ctx) key) (BlockMac.block []) [] := by
    exact ⟨block_nil.symm, Nat.zero_le _, rfl⟩
  have hcipher : cipherBlock (setKey (init ctx) key).rijndael = cipher128 key := by
    funext b
    rw [cipherBlock, setKey, encrypt_setKey128, Option.getD_some]
  have hstep : updateStep (setKey (init ctx) key).rijndael = BlockMac.chain (cipher128 key) := by
    rw [← hcipher]
    rfl
  obtain ⟨hr, hall⟩ := updates_holds hstart chunks
  rw [hstep, foldl_absorb _ _ (by decide) (by decide) chunks (by decide), List.nil_append] at hall
  rw [hall.final digest, hr, hcipher, setKey, encrypt_setKey128, Option.getD_some,
    BlockMac.mac_eq_absorb]
  rfl

section Messages

/-- A text as it is handed to the functions: its key, where the digest goes, and the pieces. -/
structure Message where
  key : Block
  digest : Block
  chunks : List (List UInt8)

/-- The digests of texts that follow each other through one context. -/
def digests (ctx : AesCmacCtx) : List Message → List Block
  | [] => []
  | m :: ms =>
    let (digest, ctx) := final m.digest (m.chunks.foldl update (setKey (init ctx) m.key))
    digest :: digests ctx ms

theorem digests_eq (ctx : AesCmacCtx) (ms : List Message) :
    digests ctx ms = ms.map fun m => BlockMac.mac (cipher128 m.key) m.chunks.flatten := by
  induction ms generalizing ctx with
  | nil => rfl
  | cons m ms ih =>
    rw [digests]
    dsimp only
    rw [List.map_cons, final_chunks, ih]

end Messages

end EdgeNode.LoRa.Cmac
