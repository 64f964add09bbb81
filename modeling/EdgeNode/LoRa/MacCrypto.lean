import EdgeNode.LoRa.Cmac
import EdgeNode.Lib.Runs

/-! The cryptography of the radio link. Its calls share one set of static blocks and contexts. -/

namespace EdgeNode.LoRa.MacCrypto

open Aes Cmac

section Program

structure Statics where
  micBlockB0 : Block
  mic : Block
  aBlock : Block
  sBlock : Block
  aesContext : AesContext
  aesCmacCtx : AesCmacCtx

def statics : Statics where
  micBlockB0 := #v[0x49, 0, 0, 0, 0, 0, 0, 0, 0, 0, 0, 0, 0, 0, 0, 0]
  mic := Vector.replicate 16 0
  aBlock := #v[0x01, 0, 0, 0, 0, 0, 0, 0, 0, 0, 0, 0, 0, 0, 0, 0]
  sBlock := Vector.replicate 16 0
  aesContext := ⟨Vector.replicate 240 0, 0⟩
  aesCmacCtx := ⟨⟨Vector.replicate 240 0, 0⟩, Vector.replicate 16 0, Vector.replicate 16 0, 0⟩

/-- Byte `i` of a word, the lowest one first. -/
def byteOf (x : UInt32) (i : Nat) : UInt8 := UInt8.ofNat (x.toNat / 256 ^ i % 256)

/-- The direction, the address and the counter of a block, from its byte 5 on. -/
def putFrame (b : Block) (dir : UInt8) (address sequenceCounter : UInt32) : Block := #v[
  byte b 0, byte b 1, byte b 2, byte b 3, byte b 4, dir,
  byteOf address 0, byteOf address 1, byteOf address 2, byteOf address 3,
  byteOf sequenceCounter 0, byteOf sequenceCounter 1, byteOf sequenceCounter 2, byteOf sequenceCounter 3,
  byte b 14, byte b 15]

/-- `Mic[3] << 24 | Mic[2] << 16 | Mic[1] << 8 | Mic[0]`. -/
def micWord (mic : Block) : UInt32 :=
  ((byte mic 3).toUInt32 <<< 24) ||| ((byte mic 2).toUInt32 <<< 16) |||
    ((byte mic 1).toUInt32 <<< 8) ||| (byte mic 0).toUInt32

def loRaMacComputeMic (buffer : List UInt8) (size : UInt16) (key : Block) (address : UInt32) (dir : UInt8)
    (sequenceCounter : UInt32) (s : Statics) : UInt32 × Statics :=
  let micBlockB0 := setLast (putFrame s.micBlockB0 dir address sequenceCounter) size.toUInt8
  let ctx := update (update (setKey (init s.aesCmacCtx) key) micBlockB0.toList)
    (buffer.take (size &&& 0xff).toNat)
  let (mic, aesCmacCtx) := final s.mic ctx
  (micWord mic, { s with micBlockB0, mic, aesCmacCtx })

/-- `aes_set_key` on the cleared schedule. -/
def setAesKey (ctx : AesContext) (key : Block) : AesContext :=
  (Aes.setKey { ctx with ksch := Vector.replicate 240 0 } key.toList 16).2

/-- The bytes from `pos` on, as many as there are. -/
def putBytes (out : List UInt8) (pos : Nat) (data : List UInt8) : List UInt8 :=
  out.mapIdx fun i b => if pos ≤ i ∧ i < pos + data.length then data.getD (i - pos) 0 else b

/-- The exclusive or of `n` bytes at `bufferIndex` with `sBlock`. -/
def cryptBytes (buffer : List UInt8) (sBlock : Block) (bufferIndex : UInt8) (n : Nat)
    (encBuffer : List UInt8) : List UInt8 :=
  putBytes encBuffer bufferIndex.toNat
    ((List.range n).map fun i => buffer.getD (bufferIndex.toNat + i) 0 ^^^ sBlock.toList.getD i 0)

/-- What the passes of `LoRaMacPayloadEncrypt` carry on. -/
structure Pass where
  s : Statics
  ctr : UInt16
  bufferIndex : UInt8
  encBuffer : List UInt8

def nextBlock (s : Statics) (ctr : UInt16) : Statics :=
  let aBlock := setLast s.aBlock ctr.toUInt8
  { s with aBlock, sBlock := (encrypt s.aesContext aBlock).getD s.sBlock }

def cryptPass (buffer : List UInt8) (p : Pass) : Pass :=
  let s := nextBlock p.s p.ctr
  ⟨s, p.ctr + 1, p.bufferIndex + 16, cryptBytes buffer s.sBlock p.bufferIndex 16 p.encBuffer⟩

/-- `LoRaMacPayloadEncrypt`: what stands in `encBuffer` afterwards. -/
def loRaMacPayloadEncrypt (buffer : List UInt8) (size : UInt16) (key : Block) (address : UInt32)
    (dir : UInt8) (sequenceCounter : UInt32) (encBuffer : List UInt8) (s : Statics) :
    List UInt8 × Statics :=
  let s := { s with
    aesContext := setAesKey s.aesContext key
    aBlock := putFrame s.aBlock dir address sequenceCounter }
  let p := (cryptPass buffer)^[size.toNat / 16] ⟨s, 1, 0, encBuffer⟩
  if 0 < size.toNat % 16 then
    let s := nextBlock p.s p.ctr
    (cryptBytes buffer s.sBlock p.bufferIndex (size.toNat % 16) p.encBuffer, s)
  else (p.encBuffer, p.s)

def loRaMacPayloadDecrypt (buffer : List UInt8) (size : UInt16) (key : Block) (address : UInt32)
    (dir : UInt8) (sequenceCounter : UInt32) (decBuffer : List UInt8) (s : Statics) :
    List UInt8 × Statics :=
  loRaMacPayloadEncrypt buffer size key address dir sequenceCounter decBuffer s

def loRaMacJoinComputeMic (buffer : List UInt8) (size : UInt16) (key : Block) (s : Statics) :
    UInt32 × Statics :=
  let ctx := update (setKey (init s.aesCmacCtx) key) (buffer.take (size &&& 0xff).toNat)
  let (mic, aesCmacCtx) := final s.mic ctx
  (micWord mic, { s with mic, aesCmacCtx })

/-- One block, or two when the second is there: `buffer + 16` to `encBuffer + 16`. -/
def joinBlocks (f : Block → Option Block) (buffer : List UInt8) (size : UInt16) (encBuffer : List UInt8) :
    List UInt8 :=
  let put (pos : Nat) (out : List UInt8) : List UInt8 :=
    ((f (blockAt (buffer.drop pos))).map fun b => putBytes out pos b.toList).getD out
  if 16 ≤ size then put 16 (put 0 encBuffer) else put 0 encBuffer

def loRaMacJoinEncrypt (buffer : List UInt8) (size : UInt16) (key : Block) (encBuffer : List UInt8)
    (s : Statics) : List UInt8 × Statics :=
  let aesContext := setAesKey s.aesContext key
  (joinBlocks (decrypt aesContext) buffer size encBuffer, { s with aesContext })

def loRaMacJoinDecrypt (buffer : List UInt8) (size : UInt16) (key : Block) (decBuffer : List UInt8)
    (s : Statics) : List UInt8 × Statics :=
  let aesContext := setAesKey s.aesContext key
  (joinBlocks (encrypt aesContext) buffer size decBuffer, { s with aesContext })

def joinNonce (tag : UInt8) (appNonce : List UInt8) (devNonce : UInt16) : Block :=
  blockAt (tag :: (blockAt appNonce).toList.take 6 ++
    [devNonce.toUInt8, (devNonce >>> 8).toUInt8])

/-- `LoRaMacJoinComputeSKeys`: the keys `nwkSKey` and `appSKey`, over those that stood there. -/
def loRaMacJoinComputeSKeys (key : Block) (appNonce : List UInt8) (devNonce : UInt16)
    (nwkSKey appSKey : Block) (s : Statics) : (Block × Block) × Statics :=
  let aesContext := setAesKey s.aesContext key
  (((encrypt aesContext (joinNonce 0x01 appNonce devNonce)).getD nwkSKey,
    (encrypt aesContext (joinNonce 0x02 appNonce devNonce)).getD appSKey), { s with aesContext })

end Program

section Results

/-- A block with nothing of earlier frames in it. -/
def frameBlock (tag dir : UInt8) (address sequenceCounter : UInt32) (last : UInt8) : Block := #v[
  tag, 0, 0, 0, 0, dir,
  byteOf address 0, byteOf address 1, byteOf address 2, byteOf address 3,
  byteOf sequenceCounter 0, byteOf sequenceCounter 1, byteOf sequenceCounter 2, byteOf sequenceCounter 3,
  0, last]

def mic (key : Block) (text : List UInt8) : UInt32 := micWord (BlockMac.mac (cipher128 key) text)

/-- Block `i` of the stream that a payload is combined with. -/
def keyStream (key : Block) (dir : UInt8) (address sequenceCounter : UInt32) (i : Nat) : Block :=
  cipher128 key (frameBlock 0x01 dir address sequenceCounter (UInt16.ofNat (i + 1)).toUInt8)

def crypted (stream : Nat → Block) (buffer : List UInt8) (size : Nat) (encBuffer : List UInt8) :
    List UInt8 :=
  (List.range ((size + 15) / 16)).foldl (fun out i =>
    cryptBytes buffer (stream i) (UInt8.ofNat (16 * i)) (min 16 (size - 16 * i)) out) encBuffer

/-- What the calls never change of the static blocks. -/
def Fixed (tag : UInt8) (b : Block) : Prop :=
  byte b 0 = tag ∧ byte b 1 = 0 ∧ byte b 2 = 0 ∧ byte b 3 = 0 ∧ byte b 4 = 0 ∧ byte b 14 = 0

structure Inv (s : Statics) : Prop where
  micBlockB0 : Fixed 0x49 s.micBlockB0
  aBlock : Fixed 0x01 s.aBlock

theorem Inv.withAes {s : Statics} (h : Inv s) (aesContext : AesContext) : Inv { s with aesContext } :=
  ⟨h.micBlockB0, h.aBlock⟩

theorem inv_statics : Inv statics :=
  ⟨⟨rfl, rfl, rfl, rfl, rfl, rfl⟩, ⟨rfl, rfl, rfl, rfl, rfl, rfl⟩⟩

theorem Fixed.putFrame {tag : UInt8} {b : Block} (h : Fixed tag b) (dir last : UInt8)
    (address sequenceCounter : UInt32) :
    setLast (MacCrypto.putFrame b dir address sequenceCounter) last =
      frameBlock tag dir address sequenceCounter last := by
  obtain ⟨h0, h1, h2, h3, h4, h14⟩ := h
  rw [MacCrypto.putFrame, h0, h1, h2, h3, h4, h14]
  rfl

theorem fixed_frameBlock (tag dir last : UInt8) (address sequenceCounter : UInt32) :
    Fixed tag (frameBlock tag dir address sequenceCounter last) := ⟨rfl, rfl, rfl, rfl, rfl, rfl⟩

theorem encrypt_setAesKey (ctx : AesContext) (key b : Block) :
    encrypt (setAesKey ctx key) b = some (cipher128 key b) :=
  encrypt_setKey128 _ key b

def decipher128 (key c : Block) : Block :=
  ofState (Rijndael.invCipher (Rijndael.roundKey 4 (keyWords key.toList)) 10 (state c))

theorem cipher128_decipher128 (key c : Block) : cipher128 key (decipher128 key c) = c := by
  rw [cipher128, decipher128, state_ofState, Rijndael.cipher_invCipher, ofState_state]

theorem decrypt_setAesKey (ctx : AesContext) (key c : Block) :
    decrypt (setAesKey ctx key) c = some (decipher128 key c) := by
  rw [← encrypt_iff, encrypt_setAesKey, cipher128_decipher128]

variable {s : Statics} (key : Block) (address sequenceCounter : UInt32) (dir : UInt8)

theorem computeMic_eq (hs : Inv s) (buffer : List UInt8) (size : UInt16) :
    (loRaMacComputeMic buffer size key address dir sequenceCounter s).1 =
        mic key ((frameBlock 0x49 dir address sequenceCounter size.toUInt8).toList ++
          buffer.take (size &&& 0xff).toNat) ∧
      Inv (loRaMacComputeMic buffer size key address dir sequenceCounter s).2 := by
  have hfinal := final_chunks s.aesCmacCtx key s.mic
    [(frameBlock 0x49 dir address sequenceCounter size.toUInt8).toList, buffer.take (size &&& 0xff).toNat]
  rw [List.flatten_cons, List.flatten_cons, List.flatten_nil, List.append_nil] at hfinal
  rw [loRaMacComputeMic, hs.micBlockB0.putFrame]
  refine ⟨?_, ⟨fixed_frameBlock _ _ _ _ _, hs.aBlock⟩⟩
  rw [mic, ← hfinal]
  rfl

theorem joinComputeMic_eq (s : Statics) (buffer : List UInt8) (size : UInt16) :
    (loRaMacJoinComputeMic buffer size key s).1 = mic key (buffer.take (size &&& 0xff).toNat) := by
  have hfinal := final_chunks s.aesCmacCtx key s.mic [buffer.take (size &&& 0xff).toNat]
  rw [List.flatten_cons, List.flatten_nil, List.append_nil] at hfinal
  rw [mic, ← hfinal]
  rfl

section Payload

/-- The static blocks between two passes over a payload. -/
structure Ready (s₀ s : Statics) : Prop where
  aBlock : ∀ last, setLast s.aBlock last = frameBlock 0x01 dir address sequenceCounter last
  encrypt : ∀ b, encrypt s.aesContext b = some (cipher128 key b)
  micBlockB0 : s.micBlockB0 = s₀.micBlockB0

variable {key address sequenceCounter dir} {s₀ : Statics}

theorem Ready.fixed (h : Ready key address sequenceCounter dir s₀ s) : Fixed 0x01 s.aBlock := by
  have hat (j : Nat) (hj : j < 15) :
      byte s.aBlock j = byte (frameBlock 0x01 dir address sequenceCounter 0) j := by
    rw [← h.aBlock 0, byte_setLast _ _ hj]
  exact ⟨hat 0 (by decide), hat 1 (by decide), hat 2 (by decide), hat 3 (by decide), hat 4 (by decide),
    hat 14 (by decide)⟩

theorem Ready.nextBlock (h : Ready key address sequenceCounter dir s₀ s) (i : Nat) :
    (nextBlock s (UInt16.ofNat (i + 1))).sBlock = keyStream key dir address sequenceCounter i ∧
      Ready key address sequenceCounter dir s₀ (nextBlock s (UInt16.ofNat (i + 1))) := by
  refine ⟨?_, ⟨fun last => ?_, h.encrypt, h.micBlockB0⟩⟩
  · rw [MacCrypto.nextBlock, h.aBlock, h.encrypt]
    rfl
  · rw [MacCrypto.nextBlock, h.aBlock]
    rfl

theorem cryptPass_iterate (h : Ready key address sequenceCounter dir s₀ s) (buffer encBuffer : List UInt8)
    (k : Nat) : ∃ s', Ready key address sequenceCounter dir s₀ s' ∧
      (cryptPass buffer)^[k] ⟨s, 1, 0, encBuffer⟩ = ⟨s', UInt16.ofNat (k + 1), UInt8.ofNat (16 * k),
        (List.range k).foldl (fun out i => cryptBytes buffer
          (keyStream key dir address sequenceCounter i) (UInt8.ofNat (16 * i)) 16 out) encBuffer⟩ := by
  induction k with
  | zero => exact ⟨s, h, rfl⟩
  | succ k ih =>
    obtain ⟨s', hs', hk⟩ := ih
    obtain ⟨hblock, hready⟩ := hs'.nextBlock k
    refine ⟨_, hready, ?_⟩
    rw [Function.iterate_succ_apply', hk, cryptPass, List.range_succ, List.foldl_concat, ← hblock,
      UInt16.ofNat_add (k + 1) 1, Nat.mul_succ, UInt8.ofNat_add (16 * k) 16]
    rfl

theorem payloadEncrypt_eq (hs : Inv s) (buffer encBuffer : List UInt8) (size : UInt16) :
    (loRaMacPayloadEncrypt buffer size key address dir sequenceCounter encBuffer s).1 =
        crypted (keyStream key dir address sequenceCounter) buffer size.toNat encBuffer ∧
      Inv (loRaMacPayloadEncrypt buffer size key address dir sequenceCounter encBuffer s).2 := by
  have hstart : Ready key address sequenceCounter dir s { s with
      aesContext := setAesKey s.aesContext key, aBlock := putFrame s.aBlock dir address sequenceCounter } :=
    ⟨fun last => hs.aBlock.putFrame dir last address sequenceCounter,
      fun b => encrypt_setAesKey s.aesContext key b, rfl⟩
  obtain ⟨s', hs', hpasses⟩ := cryptPass_iterate hstart buffer encBuffer (size.toNat / 16)
  have hfull : (List.range (size.toNat / 16)).foldl (fun out i => cryptBytes buffer
        (keyStream key dir address sequenceCounter i) (UInt8.ofNat (16 * i)) 16 out) encBuffer =
      (List.range (size.toNat / 16)).foldl (fun out i => cryptBytes buffer
        (keyStream key dir address sequenceCounter i) (UInt8.ofNat (16 * i))
          (min 16 (size.toNat - 16 * i)) out) encBuffer := by
    refine List.foldl_ext _ _ _ fun out i hi => ?_
    rw [List.mem_range] at hi
    rw [Nat.min_eq_left (by omega)]
  rw [loRaMacPayloadEncrypt, hpasses, hfull, crypted]
  dsimp only
  split
  · rename_i hrest
    obtain ⟨hblock, hready⟩ := hs'.nextBlock (size.toNat / 16)
    refine ⟨?_, ⟨?_, hready.fixed⟩⟩
    · rw [show (size.toNat + 15) / 16 = size.toNat / 16 + 1 by omega, List.range_succ, List.foldl_concat,
        hblock, Nat.min_eq_right (by omega),
        show size.toNat - 16 * (size.toNat / 16) = size.toNat % 16 by omega]
    · rw [hready.micBlockB0]
      exact hs.micBlockB0
  · rename_i hrest
    refine ⟨?_, ⟨?_, hs'.fixed⟩⟩
    · rw [show (size.toNat + 15) / 16 = size.toNat / 16 by omega]
    · rw [hs'.micBlockB0]
      exact hs.micBlockB0

theorem length_putBytes (out : List UInt8) (pos : Nat) (data : List UInt8) :
    (putBytes out pos data).length = out.length :=
  List.length_mapIdx

theorem length_cryptBytes (buffer : List UInt8) (b : Block) (pos : UInt8) (n : Nat) (out : List UInt8) :
    (cryptBytes buffer b pos n out).length = out.length :=
  length_putBytes _ _ _

theorem getElem_cryptBytes {buffer out : List UInt8} (b : Block) (pos : UInt8) {n j : Nat}
    (hj : j < out.length) (hb : j < buffer.length) :
    (cryptBytes buffer b pos n out)[j]? =
      if pos.toNat ≤ j ∧ j < pos.toNat + n then
        some (buffer[j] ^^^ b.toList.getD (j - pos.toNat) 0)
      else out[j]? := by
  rw [cryptBytes, putBytes, List.getElem?_mapIdx, List.getElem?_eq_getElem hj, Option.map_some]
  simp only [List.length_map, List.length_range]
  split_ifs with hin
  · rw [List.getD_eq_getElem?_getD, List.getElem?_map, List.getElem?_range (by omega), Option.map_some,
      Option.getD_some, Nat.add_sub_cancel' hin.1, List.getD_eq_getElem?_getD, List.getElem?_eq_getElem hb,
      Option.getD_some]
  · rfl

theorem length_fold (stream : Nat → Block) (buffer : List UInt8) (size : Nat) (l : List Nat)
    (out : List UInt8) : (l.foldl (fun out i => cryptBytes buffer (stream i) (UInt8.ofNat (16 * i))
      (min 16 (size - 16 * i)) out) out).length = out.length := by
  induction l generalizing out with
  | nil => rfl
  | cons i l ih => rw [List.foldl_cons, ih, length_cryptBytes]

/-- Whether block `i` of a payload is written over byte `j`. -/
def Reaches (size i j : Nat) : Prop :=
  (UInt8.ofNat (16 * i)).toNat ≤ j ∧ j < (UInt8.ofNat (16 * i)).toNat + min 16 (size - 16 * i)

/-- A byte is combined with the stream by the last block that reaches it, whatever is in the
buffers. -/
theorem fold_byte (stream : Nat → Block) (size j k : Nat) : ∃ mask : Option UInt8,
    (mask = none ↔ ∀ i < k, ¬ Reaches size i j) ∧
      ∀ buffer out : List UInt8, j < buffer.length → j < out.length →
        ((List.range k).foldl (fun out i => cryptBytes buffer (stream i) (UInt8.ofNat (16 * i))
          (min 16 (size - 16 * i)) out) out)[j]? =
            mask.elim out[j]? fun x => buffer[j]?.map (· ^^^ x) := by
  induction k with
  | zero => exact ⟨none, by simp, fun _ _ _ _ => rfl⟩
  | succ k ih =>
    obtain ⟨mask, hmask, hbyte⟩ := ih
    by_cases hk : Reaches size k j
    · refine ⟨some ((stream k).toList.getD (j - (UInt8.ofNat (16 * k)).toNat) 0), ?_, ?_⟩
      · exact ⟨fun h => absurd h (Option.some_ne_none _), fun h => absurd hk (h k (Nat.lt_succ_self k))⟩
      · intro buffer out hb ho
        rw [List.range_succ, List.foldl_concat, getElem_cryptBytes _ _ (by rwa [length_fold]) hb,
          if_pos (show _ ∧ _ from hk), List.getElem?_eq_getElem hb]
        rfl
    · refine ⟨mask, ?_, ?_⟩
      · rw [hmask]
        refine ⟨fun h i hi => ?_, fun h i hi => h i (by omega)⟩
        obtain hi | rfl := Nat.lt_succ_iff_lt_or_eq.mp hi
        · exact h i hi
        · exact hk
      · intro buffer out hb ho
        rw [List.range_succ, List.foldl_concat, getElem_cryptBytes _ _ (by rwa [length_fold]) hb,
          if_neg (show ¬ (_ ∧ _) from hk), hbyte buffer out hb ho]

theorem reaches_iff (size j : Nat) :
    (∀ i < (size + 15) / 16, ¬ Reaches size i j) ↔ ¬ j < min size 256 := by
  simp only [Reaches, UInt8.toNat_ofNat']
  constructor
  · intro h hj
    exact h (j / 16) (by omega) (by omega)
  · intro h i hi hin
    omega

/-- The payload comes back up to its byte 256, and the bytes from there on are never written. -/
theorem crypted_crypted (stream : Nat → Block) {buffer enc dec : List UInt8}
    (henc : enc.length = buffer.length) (hdec : dec.length = buffer.length) :
    (crypted stream buffer buffer.length enc).drop 256 = enc.drop 256 ∧
      crypted stream (crypted stream buffer buffer.length enc) buffer.length dec =
        buffer.take 256 ++ dec.drop 256 := by
  have hlen : (crypted stream buffer buffer.length enc).length = buffer.length := by
    rw [crypted, length_fold, henc]
  constructor
  · apply List.ext_getElem?
    intro i
    rw [List.getElem?_drop, List.getElem?_drop]
    by_cases hi : 256 + i < buffer.length
    · obtain ⟨mask, hmask, hbyte⟩ := fold_byte stream buffer.length (256 + i) ((buffer.length + 15) / 16)
      have hnone : mask = none := hmask.mpr ((reaches_iff _ _).mpr (by omega))
      rw [crypted, hbyte buffer enc hi (by omega), hnone]
      rfl
    · rw [List.getElem?_eq_none (by omega), List.getElem?_eq_none (by omega)]
  · apply List.ext_getElem?
    intro j
    by_cases hj : j < buffer.length
    · obtain ⟨mask, hmask, hbyte⟩ := fold_byte stream buffer.length j ((buffer.length + 15) / 16)
      rw [reaches_iff] at hmask
      have hfirst : (crypted stream buffer buffer.length enc)[j]? = _ := hbyte buffer enc hj (by omega)
      have hsecond : (crypted stream (crypted stream buffer buffer.length enc) buffer.length dec)[j]? = _ :=
        hbyte _ dec (by omega) (by omega)
      rw [hsecond]
      cases mask with
      | none =>
        have hge : 256 ≤ j := by
          have := hmask.mp rfl
          omega
        rw [List.getElem?_append_right (by simp; omega), List.length_take, Nat.min_eq_left (by omega),
          List.getElem?_drop, Nat.add_sub_cancel' hge]
        rfl
      | some x =>
        have hlt : j < 256 := by
          by_contra hge
          exact absurd (hmask.mpr (by omega)) (Option.some_ne_none x)
        rw [List.getElem?_append_left (by simp; omega), List.getElem?_take_of_lt hlt, Option.elim_some,
          hfirst, Option.elim_some, Option.map_map]
        have hxor : (fun b => b ^^^ x) ∘ (fun b => b ^^^ x) = (id : UInt8 → UInt8) := by
          funext b
          rw [Function.comp_apply, UInt8.xor_assoc, UInt8.xor_self, UInt8.xor_zero, id_eq]
        rw [hxor, Option.map_id]
        rfl
    · rw [List.getElem?_eq_none (by rw [crypted, length_fold]; omega),
        List.getElem?_eq_none (by simp; omega)]

end Payload

section Calls

inductive Call where
  | computeMic (buffer : List UInt8) (size : UInt16) (key : Block) (address : UInt32) (dir : UInt8)
      (sequenceCounter : UInt32)
  | payloadEncrypt (buffer : List UInt8) (size : UInt16) (key : Block) (address : UInt32) (dir : UInt8)
      (sequenceCounter : UInt32) (encBuffer : List UInt8)
  | payloadDecrypt (buffer : List UInt8) (size : UInt16) (key : Block) (address : UInt32) (dir : UInt8)
      (sequenceCounter : UInt32) (decBuffer : List UInt8)
  | joinComputeMic (buffer : List UInt8) (size : UInt16) (key : Block)
  | joinEncrypt (buffer : List UInt8) (size : UInt16) (key : Block) (encBuffer : List UInt8)
  | joinDecrypt (buffer : List UInt8) (size : UInt16) (key : Block) (decBuffer : List UInt8)
  | joinComputeSKeys (key : Block) (appNonce : List UInt8) (devNonce : UInt16) (nwkSKey appSKey : Block)

inductive Result where
  | word (x : UInt32)
  | bytes (l : List UInt8)
  | keys (nwkSKey appSKey : Block)

def call (s : Statics) : Call → Result × Statics
  | .computeMic buffer size key address dir n =>
    (loRaMacComputeMic buffer size key address dir n s).map Result.word id
  | .payloadEncrypt buffer size key address dir n encBuffer =>
    (loRaMacPayloadEncrypt buffer size key address dir n encBuffer s).map Result.bytes id
  | .payloadDecrypt buffer size key address dir n decBuffer =>
    (loRaMacPayloadDecrypt buffer size key address dir n decBuffer s).map Result.bytes id
  | .joinComputeMic buffer size key => (loRaMacJoinComputeMic buffer size key s).map Result.word id
  | .joinEncrypt buffer size key encBuffer =>
    (loRaMacJoinEncrypt buffer size key encBuffer s).map Result.bytes id
  | .joinDecrypt buffer size key decBuffer =>
    (loRaMacJoinDecrypt buffer size key decBuffer s).map Result.bytes id
  | .joinComputeSKeys key appNonce devNonce nwkSKey appSKey =>
    (loRaMacJoinComputeSKeys key appNonce devNonce nwkSKey appSKey s).map
      (fun k => Result.keys k.1 k.2) id

/-- What a call gives by its arguments alone. -/
def result : Call → Result
  | .computeMic buffer size key address dir n => .word (mic key
    ((frameBlock 0x49 dir address n size.toUInt8).toList ++ buffer.take (size &&& 0xff).toNat))
  | .payloadEncrypt buffer size key address dir n out
  | .payloadDecrypt buffer size key address dir n out =>
    .bytes (crypted (keyStream key dir address n) buffer size.toNat out)
  | .joinComputeMic buffer size key => .word (mic key (buffer.take (size &&& 0xff).toNat))
  | .joinEncrypt buffer size key out =>
    .bytes (joinBlocks (fun b => some (decipher128 key b)) buffer size out)
  | .joinDecrypt buffer size key out =>
    .bytes (joinBlocks (fun b => some (cipher128 key b)) buffer size out)
  | .joinComputeSKeys key appNonce devNonce _ _ =>
    .keys (cipher128 key (joinNonce 0x01 appNonce devNonce))
      (cipher128 key (joinNonce 0x02 appNonce devNonce))

theorem call_eq (hs : Inv s) (c : Call) : (call s c).1 = result c ∧ Inv (call s c).2 := by
  cases c with
  | computeMic buffer size key address dir n =>
    obtain ⟨hmic, hinv⟩ := computeMic_eq key address n dir hs buffer size
    exact ⟨congrArg Result.word hmic, hinv⟩
  | payloadEncrypt buffer size key address dir n out =>
    obtain ⟨hout, hinv⟩ := payloadEncrypt_eq hs buffer out size
    exact ⟨congrArg Result.bytes hout, hinv⟩
  | payloadDecrypt buffer size key address dir n out =>
    obtain ⟨hout, hinv⟩ := payloadEncrypt_eq hs buffer out size
    exact ⟨congrArg Result.bytes hout, hinv⟩
  | joinComputeMic buffer size key =>
    exact ⟨congrArg Result.word (joinComputeMic_eq key s buffer size), ⟨hs.micBlockB0, hs.aBlock⟩⟩
  | joinEncrypt buffer size key out =>
    refine ⟨?_, hs.withAes _⟩
    rw [result, ← funext (decrypt_setAesKey s.aesContext key)]
    rfl
  | joinDecrypt buffer size key out =>
    refine ⟨?_, hs.withAes _⟩
    rw [result, ← funext (encrypt_setAesKey s.aesContext key)]
    rfl
  | joinComputeSKeys key appNonce devNonce nwkSKey appSKey =>
    refine ⟨?_, hs.withAes _⟩
    rw [call, loRaMacJoinComputeSKeys, encrypt_setAesKey, encrypt_setAesKey]
    rfl

/-- The results of calls one after the other, and the static blocks behind them. -/
def calls (s : Statics) : List Call → List Result × Statics
  | [] => ([], s)
  | c :: cs => ((call s c).1 :: (calls (call s c).2 cs).1, (calls (call s c).2 cs).2)

theorem calls_inv (hs : Inv s) (cs : List Call) : (calls s cs).1 = cs.map result ∧ Inv (calls s cs).2 := by
  induction cs generalizing s with
  | nil => exact ⟨rfl, hs⟩
  | cons c cs ih =>
    obtain ⟨hc, hinv⟩ := call_eq hs c
    obtain ⟨hcs, hinv⟩ := ih hinv
    rw [calls, List.map_cons, hc, hcs]
    exact ⟨rfl, hinv⟩

/-- No call leaves anything behind that another one gives out. -/
theorem calls_eq (cs : List Call) : (calls statics cs).1 = cs.map result :=
  (calls_inv inv_statics cs).1

/-- A payload deciphered after any calls is the one enciphered after any other, as far as its byte 256;
what is behind was never enciphered. -/
theorem payload_back (cs cs' : List Call) (key : Block) (address sequenceCounter : UInt32) (dir : UInt8)
    {buffer enc dec : List UInt8} (hlt : buffer.length < 65536) (henc : enc.length = buffer.length)
    (hdec : dec.length = buffer.length) :
    let sent := (loRaMacPayloadEncrypt buffer (UInt16.ofNat buffer.length) key address dir sequenceCounter enc
      (calls statics cs).2).1
    sent.drop 256 = enc.drop 256 ∧
      (loRaMacPayloadDecrypt sent (UInt16.ofNat buffer.length) key address dir sequenceCounter dec
        (calls statics cs').2).1 = buffer.take 256 ++ dec.drop 256 := by
  have hsize : (UInt16.ofNat buffer.length).toNat = buffer.length := UInt16.toNat_ofNat_of_lt' hlt
  dsimp only
  rw [loRaMacPayloadDecrypt, (payloadEncrypt_eq (calls_inv inv_statics cs).2 _ _ _).1,
    (payloadEncrypt_eq (calls_inv inv_statics cs').2 _ _ _).1, hsize]
  exact crypted_crypted _ henc hdec

/-- Two bytes lie behind byte 256, and message codes are computed before. -/
theorem payload_back_wrapped :
    let key : Block := Vector.replicate 16 7
    let sent := (loRaMacPayloadEncrypt (List.replicate 258 5) 258 key 5 0 1 (List.replicate 258 1)
      (calls statics [.computeMic [1, 2, 3] 3 key 9 1 4]).2).1
    sent.drop 256 = [1, 1] ∧
      (loRaMacPayloadDecrypt sent 258 key 5 0 1 (List.replicate 258 2)
        (calls statics [.joinComputeMic [4, 5] 2 key]).2).1 = List.replicate 256 5 ++ [2, 2] := by
  intro key
  have h := @payload_back [.computeMic [1, 2, 3] 3 key 9 1 4] [.joinComputeMic [4, 5] 2 key] key 5 1 0
    (List.replicate 258 5) (List.replicate 258 1) (List.replicate 258 2)
    (List.length_replicate.trans_lt (by decide)) (List.length_replicate.trans List.length_replicate.symm)
    (List.length_replicate.trans List.length_replicate.symm)
  rw [List.length_replicate, List.take_replicate, List.drop_replicate, List.drop_replicate] at h
  exact h

end Calls

end Results

end EdgeNode.LoRa.MacCrypto
