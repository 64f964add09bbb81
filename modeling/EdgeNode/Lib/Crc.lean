import EdgeNode.Lib.ShiftRegister
import Mathlib.Data.List.Basic
import Mathlib.Tactic.Common

/-! Cyclic redundancy checks over bytes with the low bit first, and their computation by a table
of bytes. -/

namespace Crc

variable {w : Nat} (poly : BitVec w)

/-- The register once a bit is shifted out. -/
def shiftBit (x : BitVec w) : BitVec w := (x >>> 1) ^^^ if x.getLsbD 0 then poly else 0

def shiftBits : Nat → BitVec w → BitVec w
  | 0, x => x
  | n + 1, x => shiftBits n (shiftBit poly x)

/-- The register behind a byte. -/
def byte (x : BitVec w) (b : BitVec 8) : BitVec w := shiftBits poly 8 (x ^^^ b.setWidth w)

/-- The entry of the table for a byte. -/
def entry (b : BitVec 8) : BitVec w := shiftBits poly 8 (b.setWidth w)

variable {poly} {x y : BitVec w}

theorem xor_xor_cancel (p : BitVec w) : p ^^^ (p ^^^ x) = x := by
  rw [← BitVec.xor_assoc, BitVec.xor_self, BitVec.zero_xor]

theorem shiftBit_xor (x y : BitVec w) :
    shiftBit poly (x ^^^ y) = shiftBit poly x ^^^ shiftBit poly y := by
  have hboth : x >>> 1 ^^^ poly ^^^ (y >>> 1 ^^^ poly) = x >>> 1 ^^^ y >>> 1 := by
    rw [BitVec.xor_comm (x >>> 1), BitVec.xor_comm (y >>> 1), BitVec.xor_assoc,
      BitVec.xor_comm (x >>> 1), BitVec.xor_assoc, xor_xor_cancel, BitVec.xor_comm]
  simp only [shiftBit, BitVec.ushiftRight_xor_distrib, BitVec.getLsbD_xor]
  cases x.getLsbD 0 <;> cases y.getLsbD 0
  · simp
  · simp [BitVec.xor_assoc]
  · simp
    ac_rfl
  · simpa using hboth.symm

theorem shiftBits_xor (poly : BitVec w) (n : Nat) (x y : BitVec w) :
    shiftBits poly n (x ^^^ y) = shiftBits poly n x ^^^ shiftBits poly n y := by
  induction n generalizing x y with
  | zero => rfl
  | succ n ih => rw [shiftBits, shiftBit_xor, ih, shiftBits, shiftBits]

/-- Without low bits nothing but the shift happens. -/
theorem shiftBits_of_low (n : Nat) (h : ∀ i < n, x.getLsbD i = false) :
    shiftBits poly n x = x >>> n := by
  induction n generalizing x with
  | zero => simp [shiftBits]
  | succ n ih =>
    have hbit : shiftBit poly x = x >>> 1 := by simp [shiftBit, h 0 (Nat.succ_pos n)]
    rw [shiftBits, hbit, ih]
    · rw [← BitVec.shiftRight_add, Nat.add_comm]
    · intro i hi
      rw [BitVec.getLsbD_ushiftRight]
      exact h (1 + i) (by omega)

/-- The low byte of the register goes through the table, and the rest is shifted. -/
theorem shiftBits_eight (x : BitVec w) :
    shiftBits poly 8 x = (x >>> 8) ^^^ entry poly (x.setWidth 8) := by
  have hsplit : (x >>> 8 <<< 8) ^^^ (x.setWidth 8).setWidth w = x := by
    apply BitVec.eq_of_getLsbD_eq
    intro i hi
    by_cases h8 : i < 8
    · simp [h8, hi]
    · have hi8 : i - 8 + 8 = i := by omega
      simp [h8, hi, Nat.add_comm 8, hi8]
  have hlow : ∀ i < 8, (x >>> 8 <<< 8).getLsbD i = false := by
    intro i hi
    simp [hi]
  have hshift : (x >>> 8 <<< 8) >>> 8 = x >>> 8 := by
    apply BitVec.eq_of_getLsbD_eq
    intro i hi
    by_cases hw : 8 + i < w
    · simp [hw]
    · simp [hw, BitVec.getLsbD_of_ge x (8 + i) (by omega)]
  have hparts := shiftBits_xor poly 8 (x >>> 8 <<< 8) ((x.setWidth 8).setWidth w)
  rwa [hsplit, shiftBits_of_low 8 hlow, hshift] at hparts

/-- What a table has for a byte, when it is the right list. -/
theorem getD_table {α β : Type} {table : List α} {f : α → β} {g : BitVec 8 → β}
    (h : table.map f = (List.range 256).map fun n => g (BitVec.ofNat 8 n)) (b : BitVec 8) (d : α) :
    f (table.getD b.toNat d) = g b := by
  have hlen : table.length = 256 := by simpa using congrArg List.length h
  have hb : b.toNat < table.length := hlen ▸ b.isLt
  have hat := congrArg (·[b.toNat]?) h
  rw [List.getElem?_map, List.getElem?_map, List.getElem?_eq_getElem hb,
    List.getElem?_range (hlen ▸ hb), Option.map_some, Option.map_some, BitVec.ofNat_toNat,
    BitVec.setWidth_eq] at hat
  rw [List.getD_eq_getElem?_getD, List.getElem?_eq_getElem hb, Option.getD_some]
  exact Option.some.inj hat

/-- A byte by one look into the table. -/
theorem byte_eq_entry (hw : 8 ≤ w) (x : BitVec w) (b : BitVec 8) :
    byte poly x b = (x >>> 8) ^^^ entry poly (b ^^^ x.setWidth 8) := by
  have hhigh : b.setWidth w >>> 8 = 0#w := by
    apply BitVec.eq_of_getLsbD_eq
    intro i hi
    simp
  have hfull : (b.setWidth w).setWidth 8 = b := by
    apply BitVec.eq_of_getLsbD_eq
    intro i hi
    have hiw : i < w := by omega
    simp [hi, hiw]
  rw [byte, shiftBits_eight, BitVec.ushiftRight_xor_distrib, hhigh, BitVec.xor_zero,
    BitVec.setWidth_xor, hfull, BitVec.xor_comm b]

theorem getLsbD_shiftBit (x : BitVec w) {i : Nat} :
    (shiftBit poly x).getLsbD i = (x.getLsbD (1 + i) ^^ (x.getLsbD 0 && poly.getLsbD i)) := by
  rw [shiftBit, BitVec.getLsbD_xor, BitVec.getLsbD_ushiftRight]
  cases x.getLsbD 0 <;> simp

theorem shiftBits_zero (n : Nat) : shiftBits poly n 0#w = 0#w := by
  rw [shiftBits_of_low n (by simp)]
  exact BitVec.zero_ushiftRight

/-- The low byte of the register, taken in, leaves the others. -/
theorem byte_self (hw : 8 ≤ w) (x : BitVec w) : byte poly x (x.setWidth 8) = x >>> 8 := by
  rw [byte_eq_entry hw, BitVec.xor_self, entry, BitVec.setWidth_zero, shiftBits_zero,
    BitVec.xor_zero]

section Bits

open ShiftRegisters

variable (poly) in
/-- The register behind a bit. -/
def bit (x : BitVec w) (b : Bool) : BitVec w :=
  shiftBit poly (x ^^^ (BitVec.ofBool b).setWidth w)

variable (poly) in
def feed (x : BitVec w) (bs : List Bool) : BitVec w := bs.foldl (bit poly) x

/-- The word whose low bits are these. -/
def word (bs : List Bool) : BitVec w := (BitVec.ofBoolListLE bs).setWidth w

variable {bs cs : List Bool} {b : Bool}

theorem feed_append (x : BitVec w) : feed poly x (bs ++ cs) = feed poly (feed poly x bs) cs :=
  List.foldl_append

theorem getLsbD_word {i : Nat} :
    (word bs : BitVec w).getLsbD i = (decide (i < w) && bs.getD i false) := by
  rw [word, BitVec.getLsbD_setWidth, BitVec.getLsbD_ofBoolListLE]

theorem word_cons (b : Bool) (bs : List Bool) :
    (word (b :: bs) : BitVec w) = (BitVec.ofBool b).setWidth w ^^^ word bs <<< 1 := by
  apply BitVec.eq_of_getLsbD_eq
  intro i hi
  rw [getLsbD_word, BitVec.getLsbD_xor, BitVec.getLsbD_shiftLeft, getLsbD_word,
    BitVec.getLsbD_setWidth, BitVec.getLsbD_ofBool]
  cases i with
  | zero => simp [hi]
  | succ i =>
    have hi' : i < w := by omega
    simp [hi, hi']

theorem word_wordBits {n : Nat} (y : BitVec n) : (word (wordBits y) : BitVec w) = y.setWidth w := by
  apply BitVec.eq_of_getLsbD_eq
  intro i hi
  rw [getLsbD_word, BitVec.getLsbD_setWidth, wordBits, List.getD_eq_getElem?_getD,
    List.getElem?_map]
  by_cases hn : i < n
  · simp [hn]
  · simp [hn, BitVec.getLsbD_of_ge y i (by omega)]

/-- A word that leaves the highest place free is shifted back without a loss. -/
theorem shiftBit_shiftLeft (h : bs.length < w) :
    shiftBit poly ((word bs : BitVec w) <<< 1) = word bs := by
  apply BitVec.eq_of_getLsbD_eq
  intro i hi
  have hlow : ((word bs : BitVec w) <<< 1).getLsbD 0 = false := by simp
  rw [getLsbD_shiftBit, hlow, Bool.false_and, Bool.xor_false, BitVec.getLsbD_shiftLeft,
    getLsbD_word, getLsbD_word, Nat.add_sub_cancel_left]
  by_cases hlt : 1 + i < w
  · simp [hlt, hi]
  · have hout : bs[i]? = none := List.getElem?_eq_none (by omega)
    simp [hlt, hout]

/-- As many bits as the register holds can be put in at once. -/
theorem feed_eq_shiftBits (h : bs.length ≤ w) (x : BitVec w) :
    feed poly x bs = shiftBits poly bs.length (x ^^^ word bs) := by
  induction bs generalizing x with
  | nil =>
    have hnil : (word [] : BitVec w) = 0#w := by
      apply BitVec.eq_of_getLsbD_eq
      intro i hi
      simp [getLsbD_word]
    rw [hnil, BitVec.xor_zero]
    rfl
  | cons b bs ih =>
    rw [List.length_cons] at h
    have hstep : shiftBit poly (x ^^^ word (b :: bs)) = bit poly x b ^^^ word bs := by
      rw [word_cons, ← BitVec.xor_assoc, shiftBit_xor, shiftBit_shiftLeft (by omega)]
      rfl
    have hfeed : feed poly x (b :: bs) = feed poly (bit poly x b) bs := rfl
    rw [hfeed, ih (by omega), List.length_cons, shiftBits, hstep]

theorem byte_eq_feed (hw : 8 ≤ w) (x : BitVec w) (y : BitVec 8) :
    byte poly x y = feed poly x (wordBits y) := by
  rw [feed_eq_shiftBits (by rwa [wordBits_length]), word_wordBits, wordBits_length]
  rfl

end Bits

section Detection

/-! A polynomial with its constant term loses nothing of the register. -/

/-- One bit is another. -/
def Flipped (bs cs : List Bool) : Prop :=
  ∃ pre b post, bs = pre ++ b :: post ∧ cs = pre ++ (!b) :: post

/-- The two differ, and only within `n` bits in a row. -/
def Burst (n : Nat) (bs cs : List Bool) : Prop :=
  ∃ pre mid mid' post, bs = pre ++ mid ++ post ∧ cs = pre ++ mid' ++ post ∧
    mid.length = mid'.length ∧ mid.length ≤ n ∧ mid ≠ mid'

variable {bs cs : List Bool}

theorem eq_zero_of_shiftBit (hp : poly.msb = true) (h : shiftBit poly x = 0#w) : x = 0#w := by
  have hbit : ∀ i, (x.getLsbD (1 + i) ^^ (x.getLsbD 0 && poly.getLsbD i)) = false := by
    intro i
    rw [← getLsbD_shiftBit, h, BitVec.getLsbD_zero]
  -- the constant term puts the bit that goes out into the highest place
  have hlow : x.getLsbD 0 = false := by
    have htop := hbit (w - 1)
    rwa [BitVec.getLsbD_of_ge x (1 + (w - 1)) (by omega), ← BitVec.msb_eq_getLsbD_last, hp,
      Bool.and_true, Bool.false_xor] at htop
  apply BitVec.eq_of_getLsbD_eq
  intro i hi
  cases i with
  | zero => simpa using hlow
  | succ i => simpa [hlow, Nat.add_comm] using hbit i

theorem shiftBit_injective (hp : poly.msb = true) : Function.Injective (shiftBit poly) := by
  intro x y hxy
  rw [← BitVec.xor_eq_zero_iff]
  apply eq_zero_of_shiftBit hp
  rw [shiftBit_xor, hxy, BitVec.xor_self]

theorem feed_injective (hp : poly.msb = true) (bs : List Bool) :
    Function.Injective fun x => feed poly x bs := by
  induction bs with
  | nil => exact fun _ _ h => h
  | cons b bs ih =>
    intro x y hxy
    exact (BitVec.xor_left_inj _).mp (shiftBit_injective hp (ih hxy))

theorem word_injective (hlen : bs.length = cs.length) (hle : bs.length ≤ w)
    (h : (word bs : BitVec w) = word cs) : bs = cs := by
  apply List.ext_getElem hlen
  intro i hi hi'
  have hbit := congrArg (fun x : BitVec w => x.getLsbD i) h
  have hiw : i < w := by omega
  simp only [getLsbD_word] at hbit
  simpa [hiw, hi, hi'] using hbit

theorem Flipped.burst {n : Nat} (hn : 0 < n) (h : Flipped bs cs) : Burst n bs cs := by
  obtain ⟨pre, b, post, rfl, rfl⟩ := h
  refine ⟨pre, [b], [!b], post, by simp, by simp, rfl, hn, ?_⟩
  cases b <;> simp

/-- Texts that differ within as many bits as the register holds leave different registers. -/
theorem Burst.feed_ne (hp : poly.msb = true) (h : Burst w bs cs) (x : BitVec w) :
    feed poly x bs ≠ feed poly x cs := by
  obtain ⟨pre, mid, mid', post, rfl, rfl, hlen, hle, hne⟩ := h
  intro hsame
  rw [feed_append, feed_append, feed_append, feed_append] at hsame
  have hmid := feed_injective hp post hsame
  have hle' : mid'.length ≤ w := Nat.le_trans (Nat.le_of_eq hlen.symm) hle
  rw [feed_eq_shiftBits hle, feed_eq_shiftBits hle', ← hlen] at hmid
  have hshift : Function.Injective (shiftBits poly mid.length) := by
    induction mid.length with
    | zero => exact fun _ _ h => h
    | succ n ih => exact ih.comp (shiftBit_injective hp)
  exact hne (word_injective hlen hle ((BitVec.xor_right_inj _).mp (hshift hmid)))

end Detection

end Crc
