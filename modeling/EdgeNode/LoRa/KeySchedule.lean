import EdgeNode.LoRa.Cipher

/-! The schedule of `aes_set_key` is the key expansion of Rijndael. -/

namespace EdgeNode.LoRa.Aes

open ByteField Rijndael

section Schedule

/-- A word of the schedule. -/
def column (t : Word) : Fin 4 → UInt8 := fun j => t[j]

/-- The words of the key. -/
def keyWords (key : List UInt8) (i : Nat) : Fin 4 → UInt8 := fun j => key.getD (4 * i + j) 0

variable {k : Vector UInt8 240}

theorem getElem_word {pos j : Nat} (hj : j < 4) (h : pos + j < 240) : (word k pos)[j] = k[pos + j] := by
  rw [word, Vector.getElem_ofFn, List.getD_eq_getElem?_getD, List.getElem?_eq_getElem (by simpa using h)]
  simp

theorem word_putWord {pos : Nat} (t : Word) (h : pos + 4 ≤ 240) : word (putWord k pos t) pos = t := by
  ext j hj
  rw [getElem_word hj (by omega), putWord, Vector.getElem_ofFn, dif_pos (by simp; omega)]
  simp

theorem word_putWord_of_le {pos q : Nat} (t : Word) (h : pos + 4 ≤ 240) (hq : q + 4 ≤ pos) :
    word (putWord k pos t) q = word k q := by
  ext j hj
  rw [getElem_word hj (by omega), getElem_word hj (by omega), putWord, Vector.getElem_ofFn,
    dif_neg (by simp; omega)]
  rfl

/-- The schedule up to its `i`th word, and `rc` for the next turn of the key. -/
def Expanded (nk : Nat) (key : Nat → Fin 4 → UInt8) (p : Vector UInt8 240 × UInt8) (i : Nat) : Prop :=
  (∀ n < i, column (word p.1 (4 * n)) = expand nk key n) ∧ p.2 = xtime^[(i + nk - 1) / nk - 1] 1

theorem column_xorWord (s t : Word) : column (xorWord s t) = fun j => column s j ^^^ column t j := by
  funext j
  simp [column, xorWord]

theorem column_sBoxWord (t : Word) : column (sBoxWord t) = subWord (column t) := by
  funext j
  fin_cases j <;> simp [column, sBoxWord, subWord, sBox_eq]

theorem column_sBoxTurned (t : Word) (n : Nat) : column (sBoxTurned t (xtime^[n - 1] 1)) =
    fun j => subWord (rotWord (column t)) j ^^^ rcon n j := by
  funext j
  fin_cases j <;> simp [column, sBoxTurned, subWord, rotWord, rcon, sBox_eq]

variable {nk : Nat} {key : Nat → Fin 4 → UInt8} {p : Vector UInt8 240 × UInt8} {i : Nat}

theorem turn_succ (hnk : 0 < nk) : (i + 1 + nk - 1) / nk = i / nk + 1 := by
  rw [show i + 1 + nk - 1 = i + nk by omega, Nat.add_div_right i hnk]

theorem turn_of_ne (hnk : 0 < nk) (h : i % nk ≠ 0) : (i + nk - 1) / nk = i / nk + 1 := by
  have hdiv := Nat.div_add_mod i nk
  have hlt := Nat.mod_lt i hnk
  have hsum : i + nk - 1 = (i % nk - 1) + nk * (i / nk + 1) := by
    rw [Nat.mul_succ]
    omega
  rw [hsum, Nat.add_mul_div_left _ _ hnk, Nat.div_eq_of_lt (by omega), Nat.zero_add]

theorem turn_of_eq (hnk : 0 < nk) (h : i % nk = 0) : (i + nk - 1) / nk = i / nk := by
  have hdiv := Nat.div_add_mod i nk
  have hsum : i + nk - 1 = (nk - 1) + nk * (i / nk) := by omega
  rw [hsum, Nat.add_mul_div_left _ _ hnk, Nat.div_eq_of_lt (by omega), Nat.zero_add]

/-- What a pass puts behind the words it found. -/
theorem expanded_step (hnk : 1 < nk) (hi : nk ≤ i) (hlen : i < 60) (h : Expanded nk key p i) :
    Expanded nk key (setKeyStep (4 * nk) p (4 * i)) (i + 1) := by
  obtain ⟨hwords, hrc⟩ := h
  have hlast := hwords (i - 1) (by omega)
  have hback := hwords (i - nk) (by omega)
  rw [show 4 * (i - 1) = 4 * i - 4 by omega] at hlast
  rw [show 4 * (i - nk) = 4 * i - 4 * nk by omega] at hback
  -- the new word, whatever branch wrote it
  have hput (t : Word) (c : UInt8) (ht : column t = expand nk key i)
      (hc : c = xtime^[(i + 1 + nk - 1) / nk - 1] 1) :
      Expanded nk key (putWord p.1 (4 * i) t, c) (i + 1) := by
    refine ⟨fun n hn => ?_, hc⟩
    obtain hn | rfl := Nat.lt_succ_iff_lt_or_eq.mp hn
    · rw [word_putWord_of_le t (by omega) (by omega), hwords n hn]
    · rw [word_putWord t (by omega), ht]
  have hexpand : expand nk key i = fun j => expand nk key (i - nk) j ^^^
      (if i % nk = 0 then fun j => subWord (rotWord (expand nk key (i - 1))) j ^^^ rcon (i / nk) j
        else if 6 < nk ∧ i % nk = 4 then subWord (expand nk key (i - 1))
        else expand nk key (i - 1)) j := by
    rw [expand, dif_neg (by omega)]
  have hmod : 4 * i % (4 * nk) = 4 * (i % nk) := Nat.mul_mod_mul_left 4 i nk
  have hdiv := Nat.div_add_mod i nk
  have hlt := Nat.mod_lt i (by omega : 0 < nk)
  rw [setKeyStep, hmod]
  split_ifs with hzero hfour
  · have hz : i % nk = 0 := by omega
    rw [turn_of_eq (by omega) hz] at hrc
    refine hput _ _ ?_ ?_
    · rw [column_xorWord, hrc, column_sBoxTurned, hlast, hback, hexpand, if_pos hz]
    · rw [f2_eq, hrc, turn_succ (by omega), Nat.add_sub_cancel, ← Function.iterate_succ_apply' xtime,
        Nat.succ_eq_add_one, Nat.sub_add_cancel (Nat.div_pos hi (by omega))]
  · have hz : ¬ i % nk = 0 := by omega
    rw [turn_of_ne (by omega) hz, ← turn_succ (by omega)] at hrc
    refine hput _ _ ?_ hrc
    rw [column_xorWord, column_sBoxWord, hlast, hback, hexpand, if_neg hz, if_pos (by omega)]
  · have hz : ¬ i % nk = 0 := by omega
    rw [turn_of_ne (by omega) hz, ← turn_succ (by omega)] at hrc
    refine hput _ _ ?_ hrc
    rw [column_xorWord, hlast, hback, hexpand, if_neg hz, if_neg (by omega)]

theorem expanded_run (hnk : 1 < nk) (h : Expanded nk key p nk) (n : Nat) (hn : nk + n ≤ 60) :
    Expanded nk key ((List.range' (4 * nk) n 4).foldl (setKeyStep (4 * nk)) p) (nk + n) := by
  induction n with
  | zero => exact h
  | succ n ih =>
    rw [List.range'_concat, List.foldl_concat, ← Nat.mul_add]
    exact expanded_step hnk (by omega) (by omega) (ih (by omega))

theorem expanded_key (hnk : 0 < nk) (hlen : 4 * nk ≤ 240) (l : List UInt8) :
    Expanded nk (keyWords l) (Vector.ofFn fun i => if i < 4 * nk then l.getD i 0 else k[i], 1) nk := by
  refine ⟨fun n hn => ?_, ?_⟩
  · funext j
    rw [expand, dif_pos (Or.inl hn), keyWords, column, Fin.getElem_fin, getElem_word j.isLt (by omega),
      Vector.getElem_ofFn, if_pos (by dsimp only; omega)]
  · rw [turn_of_eq hnk (Nat.mod_self nk), Nat.div_self hnk]
    rfl

end Schedule

section Keys

variable {keylen : UInt8}

theorem keys_setKey (ctx : AesContext) (key : List UInt8)
    (hkey : keylen = 16 ∨ keylen = 24 ∨ keylen = 32) :
    (setKey ctx key keylen).2.rnd.toNat = keylen.toNat / 4 + 6 ∧ ∀ r ≤ keylen.toNat / 4 + 6,
      keys (setKey ctx key keylen).2 r = Rijndael.roundKey (keylen.toNat / 4) (keyWords key) r := by
  have hlen : keylen.toNat = 16 ∨ keylen.toNat = 24 ∨ keylen.toNat = 32 := by
    obtain rfl | rfl | rfl := hkey <;> decide
  obtain ⟨nk, hnk⟩ : ∃ nk, keylen.toNat = 4 * nk := ⟨keylen.toNat / 4, by omega⟩
  have hrnd : (UInt8.ofNat ((keylen.toNat + 28) * 4 / 16 - 1)).toNat = keylen.toNat / 4 + 6 := by
    rw [UInt8.toNat_ofNat']
    omega
  have hrun := expanded_run (by omega) (@expanded_key ctx.ksch nk (by omega) (by omega) key)
    (((keylen.toNat + 28) * 4 - keylen.toNat) / 4) (by omega)
  rw [setKey]
  dsimp only
  rw [if_pos hkey]
  refine ⟨hrnd, fun r hr => ?_⟩
  rw [hnk, Nat.mul_div_cancel_left nk (by omega)] at hr ⊢
  rw [hnk] at hrun
  funext row col
  have hcol := congrFun (hrun.1 (4 * r + col) (by omega)) row
  rw [Rijndael.roundKey, ← hcol, column, Fin.getElem_fin, getElem_word row.isLt (by omega), keys, state,
    roundKey, Vector.getElem_ofFn, List.getD_eq_getElem?_getD, List.getElem?_eq_getElem (by simp; omega)]
  simp only [Option.getD_some, Vector.getElem_toList]
  congr 1
  omega

/-- After `aes_set_key` the blocks are ciphered as Rijndael's under the key, or not at all. -/
theorem encrypt_setKey (ctx : AesContext) (key : List UInt8) (keylen : UInt8) (b : Block) :
    encrypt (setKey ctx key keylen).2 b =
      if keylen = 16 ∨ keylen = 24 ∨ keylen = 32 then
        some (ofState (cipher (Rijndael.roundKey (keylen.toNat / 4) (keyWords key))
          (keylen.toNat / 4 + 6) (state b)))
      else none := by
  split
  · rename_i hkey
    obtain ⟨hrnd, hkeys⟩ := keys_setKey ctx key hkey
    have hne : (setKey ctx key keylen).2.rnd ≠ 0 := by
      intro h
      rw [h] at hrnd
      exact absurd hrnd (by simp)
    rw [encrypt_eq, if_pos hne, hrnd, cipher_congr hkeys]
  · rename_i hkey
    rw [setKey]
    dsimp only
    rw [if_neg hkey, encrypt, if_neg (by simp)]

/-- The decryption is Rijndael's inverse under the same key, and both refuse the same keys. -/
theorem crypt_setKey (ctx : AesContext) (key : List UInt8) (keylen : UInt8) :
    ((setKey ctx key keylen).1 = true ↔ keylen = 16 ∨ keylen = 24 ∨ keylen = 32) ∧
      (∀ b, encrypt (setKey ctx key keylen).2 b = if (setKey ctx key keylen).1 then
        some (ofState (cipher (Rijndael.roundKey (keylen.toNat / 4) (keyWords key))
          (keylen.toNat / 4 + 6) (state b))) else none) ∧
      ∀ c, decrypt (setKey ctx key keylen).2 c = if (setKey ctx key keylen).1 then
        some (ofState (invCipher (Rijndael.roundKey (keylen.toNat / 4) (keyWords key))
          (keylen.toNat / 4 + 6) (state c))) else none := by
  have hiff : (setKey ctx key keylen).1 = true ↔ keylen = 16 ∨ keylen = 24 ∨ keylen = 32 := by
    rw [setKey]
    dsimp only
    split <;> simp_all
  refine ⟨hiff, fun b => ?_, fun c => ?_⟩
  · rw [encrypt_setKey]
    exact if_congr hiff.symm rfl rfl
  · by_cases hkey : keylen = 16 ∨ keylen = 24 ∨ keylen = 32
    · rw [if_pos (hiff.mpr hkey), ← encrypt_iff, encrypt_setKey, if_pos hkey, state_ofState,
        cipher_invCipher, ofState_state]
    · rw [if_neg (mt hiff.mp hkey), Option.eq_none_iff_forall_ne_some]
      intro b hb
      rw [← encrypt_iff, encrypt_setKey, if_neg hkey] at hb
      cases hb

end Keys

end EdgeNode.LoRa.Aes
