import EdgeNode.LoRa.Aes
import EdgeNode.Lib.Rijndael

/-! The block cipher is Rijndael's, with the keys that `aes_set_key` expands. -/

namespace EdgeNode.LoRa.Aes

open ByteField Rijndael

section Definitions

/-- The bytes of a block column by column. -/
def state (b : Block) : State := fun r c => b[4 * c.val + r.val]

def ofState (s : State) : Block := Vector.ofFn fun i => s ⟨i % 4, by omega⟩ ⟨i / 4, by omega⟩

/-- The round keys of a context. -/
def keys (ctx : AesContext) (r : Nat) : State := state (roundKey ctx r)

/-- Calls of a chaining function, one after the other on the same `iv`. -/
def cbcCalls (f : List Block → Block → Option (List Block × Block)) :
    List (List Block) → Block → Option (List Block × Block)
  | [], iv => some ([], iv)
  | l :: ls, iv => do
    let r ← f l iv
    let q ← cbcCalls f ls r.2
    some (r.1 ++ q.1, q.2)

end Definitions

section Tables

/-- What is checked entry by entry. -/
theorem tables_checked : sbData.length = 256 ∧ isbData.length = 256 ∧
    sbData = (inverses.map fun b => (affine b).toNat) ∧ sbData.all (fun n => n < 256) = true ∧
    isbData.zipIdx.all (fun p => (invAffine (UInt8.ofNat p.2) == 0 && UInt8.ofNat p.1 == 0) ||
      product (UInt8.ofNat p.1) (invAffine (UInt8.ofNat p.2)) == 1) = true ∧
    ∀ n < 256, UInt8.ofNat (f2 (UInt8.ofNat n).toNat) = xtime (UInt8.ofNat n) ∧
      UInt8.ofNat (f4 (UInt8.ofNat n).toNat) = xtime (xtime (UInt8.ofNat n)) ∧
      UInt8.ofNat (f8 (UInt8.ofNat n).toNat) = xtime (xtime (xtime (UInt8.ofNat n))) := by
  decide +kernel

theorem sBox_eq (x : UInt8) : sBox x = subByte x := by
  obtain ⟨-, -, hdata, -⟩ := tables_checked
  have hat : sbData[x.toNat]? = some (affine (inverse x)).toNat := by
    rw [hdata, List.getElem?_map, inverses_at, Option.map_some]
  rw [sBox, lookup, List.getD_eq_getElem?_getD, hat, Option.getD_some, f1, UInt8.ofNat_toNat, subByte]

theorem isBox_eq (x : UInt8) : isBox x = invSubByte x := by
  obtain ⟨-, hlen, -, -, hall, -⟩ := tables_checked
  have hat := List.all_eq_true.mp hall _
    (List.mk_mem_zipIdx_iff_getElem?.mpr (table_at hlen x 0))
  rw [Bool.or_eq_true, Bool.and_eq_true, beq_iff_eq, beq_iff_eq, beq_iff_eq, UInt8.ofNat_toNat] at hat
  rw [isBox, lookup, f1, invSubByte]
  obtain ⟨hzero, hnone⟩ | hone := hat
  · rw [hnone, hzero]
    rfl
  · exact eq_inverse hone

theorem product_small (x : UInt8) : product 1 x = x ∧ product 2 x = xtime x ∧
    product 3 x = xtime x ^^^ x ∧ product 9 x = xtime (xtime (xtime x)) ^^^ x ∧
    product 11 x = xtime (xtime (xtime x) ^^^ x) ^^^ x ∧
    product 13 x = xtime (xtime (xtime x ^^^ x)) ^^^ x ∧
    product 14 x = xtime (xtime (xtime x ^^^ x) ^^^ x) := by
  have hzero : xtime 0 = 0 := rfl
  refine ⟨?_, ?_, ?_, ?_, ?_, ?_, ?_⟩ <;> simp [product, hzero, Nat.testBit]

theorem f_eq (x : UInt8) : UInt8.ofNat (f2 x.toNat) = xtime x ∧
    UInt8.ofNat (f4 x.toNat) = xtime (xtime x) ∧ UInt8.ofNat (f8 x.toNat) = xtime (xtime (xtime x)) := by
  obtain ⟨-, -, -, -, -, hall⟩ := tables_checked
  exact @forall_byte (fun x => UInt8.ofNat (f2 x.toNat) = xtime x ∧
    UInt8.ofNat (f4 x.toNat) = xtime (xtime x) ∧
    UInt8.ofNat (f8 x.toNat) = xtime (xtime (xtime x))) hall x

theorem f2_eq (x : UInt8) : UInt8.ofNat (f2 x.toNat) = xtime x := (f_eq x).1

theorem lookup_mmData (w : Nat → Nat) (x : UInt8) : lookup mmData w x = UInt8.ofNat (w x.toNat) := by
  have hx : (List.range 256)[x.toNat]? = some x.toNat := List.getElem?_range x.toNat_lt
  rw [lookup, mmData, List.getD_eq_getElem?_getD, hx, Option.getD_some]

theorem gfmSb_eq (x : UInt8) :
    gfm2Sb x = product 2 (subByte x) ∧ gfm3Sb x = product 3 (subByte x) := by
  obtain ⟨hlen, -, -, hall, -⟩ := tables_checked
  have hat := table_at hlen x 0
  have hlt := of_decide_eq_true (List.all_eq_true.mp hall _ (List.mem_of_getElem? hat))
  have hsub : subByte x = UInt8.ofNat (sbData.getD x.toNat 0) := by rw [← sBox_eq, sBox, lookup, f1]
  have htwo := f2_eq (UInt8.ofNat (sbData.getD x.toNat 0))
  rw [UInt8.toNat_ofNat_of_lt' hlt] at htwo
  obtain ⟨-, hdouble, htriple, -⟩ := product_small (subByte x)
  rw [hdouble, htriple, hsub, gfm2Sb, gfm3Sb, lookup, lookup, f3, UInt8.ofNat_xor, htwo]
  exact ⟨rfl, rfl⟩

theorem gfm_eq (x : UInt8) : gfm9 x = product 9 x ∧ gfmB x = product 11 x ∧ gfmD x = product 13 x ∧
    gfmE x = product 14 x := by
  obtain ⟨-, -, -, hnine, heleven, hthirteen, hfourteen⟩ := product_small x
  rw [hnine, heleven, hthirteen, hfourteen]
  obtain ⟨htwo, hfour, height⟩ := f_eq x
  simp only [gfm9, gfmB, gfmD, gfmE, lookup_mmData, f9, fb, fd, fe, UInt8.ofNat_xor, htwo, hfour, height,
    UInt8.ofNat_toNat, xtime_xor, and_self]

end Tables

section Layers

theorem ofState_state (b : Block) : ofState (state b) = b := by
  ext i hi
  simp only [ofState, state, Vector.getElem_ofFn, Nat.div_add_mod]

theorem state_ofState (s : State) : state (ofState s) = s := by
  funext r c
  simp only [state, ofState, Vector.getElem_ofFn]
  congr 1
  all_goals
    apply Fin.ext
    dsimp only
    omega

variable (a b : Block)

theorem state_xorBlock : state (xorBlock a b) = addRoundKey (state a) (state b) := by
  funext r c
  simp [state, xorBlock, addRoundKey]

theorem state_shiftSubRows : state (shiftSubRows b) = shiftRows (subBytes (state b)) := by
  funext r c
  fin_cases c <;> fin_cases r <;> simp [state, shiftSubRows, shiftRows, subBytes, sBox_eq]

theorem state_invShiftSubRows : state (invShiftSubRows b) = invSubBytes (invShiftRows (state b)) := by
  have hneg : (-2 : Fin 4) = 2 ∧ (-3 : Fin 4) = 1 := ⟨rfl, rfl⟩
  funext r c
  fin_cases c <;> fin_cases r <;>
    simp [state, invShiftSubRows, invShiftRows, invSubBytes, isBox_eq, hneg]

theorem state_mixSubColumns :
    state (mixSubColumns b) = mixColumns (shiftRows (subBytes (state b))) := by
  have hone (x : UInt8) : product 1 x = x := one_product x
  funext r c
  fin_cases c <;> fin_cases r <;>
    simp [state, mixSubColumns, mixColumns, dot, circulant, shiftRows, subBytes, sBox_eq, gfmSb_eq, hone]

theorem state_invMixSubColumns :
    state (invMixSubColumns b) = invSubBytes (invShiftRows (invMixColumns (state b))) := by
  have hneg : (-2 : Fin 4) = 2 ∧ (-3 : Fin 4) = 1 := ⟨rfl, rfl⟩
  funext r c
  fin_cases c <;> fin_cases r <;>
    simp [state, invMixSubColumns, invMixColumns, dot, circulant, invShiftRows, invSubBytes, isBox_eq,
      gfm_eq, hneg]

end Layers

section Rounds

variable (ctx : AesContext)

theorem state_rounds (l : List Nat) (b : Block) :
    state (l.foldl (fun s r => xorBlock (mixSubColumns s) (roundKey ctx r)) b) =
      l.foldl (Rijndael.round (keys ctx)) (state b) := by
  induction l generalizing b with
  | nil => rfl
  | cons r l ih =>
    rw [List.foldl_cons, List.foldl_cons, ih, state_xorBlock, state_mixSubColumns, Rijndael.round, keys]

/-- The program has the inverse substitution at the end of a round, Rijndael before it. -/
theorem state_invRounds (l : List Nat) (b : Block) (s : State)
    (hb : state b = invSubBytes (invShiftRows s)) :
    state (l.foldl (fun s r => invMixSubColumns (xorBlock s (roundKey ctx r))) b) =
      invSubBytes (invShiftRows (l.foldl (invRound (keys ctx)) s)) := by
  induction l generalizing b s with
  | nil => exact hb
  | cons r l ih =>
    rw [List.foldl_cons, List.foldl_cons]
    apply ih
    rw [state_invMixSubColumns, state_xorBlock, hb, invRound, keys]

theorem encrypt_eq (b : Block) : encrypt ctx b =
    if ctx.rnd ≠ 0 then some (ofState (cipher (keys ctx) ctx.rnd.toNat (state b))) else none := by
  rw [encrypt]
  split
  · rw [cipher, keys, keys, ← state_xorBlock, ← state_rounds, ← state_shiftSubRows, ← state_xorBlock,
      ofState_state]
  · rfl

theorem decrypt_eq (b : Block) : decrypt ctx b =
    if ctx.rnd ≠ 0 then some (ofState (invCipher (keys ctx) ctx.rnd.toNat (state b))) else none := by
  have hstart : state (invShiftSubRows (xorBlock b (roundKey ctx ctx.rnd.toNat))) =
      invSubBytes (invShiftRows (addRoundKey (state b) (keys ctx ctx.rnd.toNat))) := by
    rw [state_invShiftSubRows, state_xorBlock, keys]
  rw [decrypt]
  split
  · rw [invCipher, ← state_invRounds ctx _ _ _ hstart, keys, ← state_xorBlock, ofState_state]
  · rfl

/-- Whatever the schedule is, decryption and encryption undo each other. -/
theorem encrypt_iff (ctx : AesContext) (b c : Block) :
    encrypt ctx b = some c ↔ decrypt ctx c = some b := by
  rw [encrypt_eq, decrypt_eq]
  split
  · rw [Option.some_inj, Option.some_inj]
    constructor
    · rintro rfl
      rw [state_ofState, invCipher_cipher, ofState_state]
    · rintro rfl
      rw [state_ofState, cipher_invCipher, ofState_state]
  · simp

end Rounds

section Chaining

theorem cbcEncrypt_append (ctx : AesContext) (l m : List Block) (iv : Block) :
    cbcEncrypt ctx (l ++ m) iv = (do
      let r ← cbcEncrypt ctx l iv
      let q ← cbcEncrypt ctx m r.2
      some (r.1 ++ q.1, q.2)) := by
  induction l generalizing iv with
  | nil => simp [cbcEncrypt]
  | cons b l ih => simp [cbcEncrypt, ih, Option.bind_assoc]

theorem cbcDecrypt_append (ctx : AesContext) (l m : List Block) (iv : Block) :
    cbcDecrypt ctx (l ++ m) iv = (do
      let r ← cbcDecrypt ctx l iv
      let q ← cbcDecrypt ctx m r.2
      some (r.1 ++ q.1, q.2)) := by
  induction l generalizing iv with
  | nil => simp [cbcDecrypt]
  | cons b l ih => simp [cbcDecrypt, ih, Option.bind_assoc]

theorem cbcCalls_flatten {f : List Block → Block → Option (List Block × Block)}
    (hnil : ∀ iv, f [] iv = some ([], iv))
    (happend : ∀ l m iv, f (l ++ m) iv = (do
      let r ← f l iv
      let q ← f m r.2
      some (r.1 ++ q.1, q.2))) (ls : List (List Block)) (iv : Block) :
    cbcCalls f ls iv = f ls.flatten iv := by
  induction ls generalizing iv with
  | nil => exact (hnil iv).symm
  | cons l ls ih => rw [cbcCalls, List.flatten_cons, happend, funext ih]

theorem xorBlock_comm (a b : Block) : xorBlock a b = xorBlock b a := by
  rw [xorBlock, xorBlock, Vector.zipWith_comm]
  simp only [UInt8.xor_comm]

theorem xorBlock_back (a b : Block) : xorBlock b (xorBlock a b) = a := by
  apply Vector.ext
  intro i hi
  rw [xorBlock, xorBlock, Vector.getElem_zipWith, Vector.getElem_zipWith, UInt8.xor_comm,
    UInt8.xor_assoc, UInt8.xor_self, UInt8.xor_zero]

theorem cbcEncrypt_cons_iff (ctx : AesContext) (b : Block) (l m : List Block) (iv iv' : Block) :
    cbcEncrypt ctx (b :: l) iv = some (m, iv') ↔ ∃ c m', m = c :: m' ∧
      encrypt ctx (xorBlock iv b) = some c ∧ cbcEncrypt ctx l c = some (m', iv') := by
  simp only [cbcEncrypt, Option.bind_eq_bind, Option.bind_eq_some_iff, Option.some_inj, Prod.mk.injEq]
  constructor
  · rintro ⟨c, hc, ⟨m', x⟩, hm, rfl, rfl⟩
    exact ⟨c, m', rfl, hc, hm⟩
  · rintro ⟨c, m', rfl, hc, hm⟩
    exact ⟨c, hc, (m', iv'), hm, rfl, rfl⟩

theorem cbcDecrypt_cons_iff (ctx : AesContext) (c : Block) (m l : List Block) (iv iv' : Block) :
    cbcDecrypt ctx (c :: m) iv = some (l, iv') ↔ ∃ b l', l = b :: l' ∧
      decrypt ctx c = some (xorBlock iv b) ∧ cbcDecrypt ctx m c = some (l', iv') := by
  simp only [cbcDecrypt, Option.bind_eq_bind, Option.bind_eq_some_iff, Option.some_inj, Prod.mk.injEq]
  constructor
  · rintro ⟨x, hx, ⟨l', y⟩, hl, rfl, rfl⟩
    exact ⟨_, l', rfl, by rw [xorBlock_back, hx], hl⟩
  · rintro ⟨b, l', rfl, hb, hl⟩
    exact ⟨_, hb, (l', iv'), hl, by rw [xorBlock_comm _ iv, xorBlock_comm iv b, xorBlock_back], rfl⟩

theorem cbcEncrypt_iff (ctx : AesContext) (l m : List Block) (iv iv' : Block) :
    cbcEncrypt ctx l iv = some (m, iv') ↔ cbcDecrypt ctx m iv = some (l, iv') := by
  induction l generalizing m iv with
  | nil =>
    cases m with
    | nil => rw [cbcEncrypt, cbcDecrypt]
    | cons c m =>
      rw [cbcDecrypt_cons_iff]
      simp [cbcEncrypt]
  | cons b l ih =>
    rw [cbcEncrypt_cons_iff]
    cases m with
    | nil => simp [cbcDecrypt]
    | cons c m =>
      rw [cbcDecrypt_cons_iff]
      constructor
      · rintro ⟨c', m', hcons, hc, hm⟩
        obtain ⟨rfl, rfl⟩ := List.cons.inj hcons
        exact ⟨b, l, rfl, (encrypt_iff ctx _ _).mp hc, (ih _ _).mp hm⟩
      · rintro ⟨b', l', hcons, hb, hl⟩
        obtain ⟨rfl, rfl⟩ := List.cons.inj hcons
        exact ⟨c, m, rfl, (encrypt_iff ctx _ _).mpr hb, (ih _ _).mpr hl⟩

/-- However the blocks are cut into calls on either side, chained decryption gives them back. -/
theorem cbc_calls_iff (ctx : AesContext) (ls ms : List (List Block)) (iv iv' : Block) :
    cbcCalls (cbcEncrypt ctx) ls iv = some (ms.flatten, iv') ↔
      cbcCalls (cbcDecrypt ctx) ms iv = some (ls.flatten, iv') := by
  rw [cbcCalls_flatten (fun _ => rfl) (cbcEncrypt_append ctx),
    cbcCalls_flatten (fun _ => rfl) (cbcDecrypt_append ctx), cbcEncrypt_iff]

end Chaining

end EdgeNode.LoRa.Aes
