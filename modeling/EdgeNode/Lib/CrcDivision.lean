import EdgeNode.Lib.Crc
import Mathlib.Algebra.CharP.Two
import Mathlib.Algebra.Field.ZMod
import Mathlib.Algebra.Polynomial.Div
import Mathlib.Tactic.LinearCombination

/-! Cyclic redundancy checks as remainders of a division of polynomials over the field of two
elements. -/

namespace Crc

open Polynomial ShiftRegisters

/-- The bits as coefficients, the first one of the highest power. -/
noncomputable def polynomial : List Bool → (ZMod 2)[X]
  | [] => 0
  | b :: bs => (if b then X ^ bs.length else 0) + polynomial bs

/-- The divisor, of which `poly` has all but the highest power, the lowest one in its high bit. -/
noncomputable def generator {w : Nat} (poly : BitVec w) : (ZMod 2)[X] :=
  X ^ w + polynomial (wordBits poly)

section Texts

variable {bs cs : List Bool}

theorem polynomial_concat (b : Bool) :
    polynomial (bs ++ [b]) = X * polynomial bs + if b then 1 else 0 := by
  induction bs with
  | nil => simp [polynomial]
  | cons c bs ih =>
    rw [List.cons_append, polynomial, polynomial, ih, List.length_append, List.length_singleton,
      mul_add, ← add_assoc]
    congr 2
    cases c <;> simp [pow_succ']

theorem polynomial_xor (l : List Nat) (f g : Nat → Bool) :
    polynomial (l.map fun i => f i ^^ g i) = polynomial (l.map f) + polynomial (l.map g) := by
  induction l with
  | nil => simp [polynomial]
  | cons i l ih =>
    simp only [List.map_cons, polynomial, List.length_map]
    rw [ih, add_add_add_comm]
    congr 1
    cases f i <;> cases g i <;> simp [CharTwo.add_self_eq_zero]

theorem degree_polynomial_lt (bs : List Bool) : (polynomial bs).degree < bs.length := by
  induction bs with
  | nil => simp [polynomial]
  | cons b bs ih =>
    rw [polynomial, List.length_cons]
    have hlt : (bs.length : WithBot Nat) < (bs.length + 1 : Nat) := by
      exact_mod_cast Nat.lt_succ_self bs.length
    refine lt_of_le_of_lt (degree_add_le _ _) (max_lt ?_ (ih.trans hlt))
    cases b
    · simp
    · exact lt_of_le_of_lt (degree_X_pow_le _) hlt

theorem polynomial_injective (hlen : bs.length = cs.length) (h : polynomial bs = polynomial cs) :
    bs = cs := by
  induction bs generalizing cs with
  | nil => exact (List.length_eq_zero_iff.mp hlen.symm).symm
  | cons b bs ih =>
    obtain ⟨c, cs, rfl⟩ := List.exists_cons_of_length_eq_add_one hlen.symm
    rw [List.length_cons, List.length_cons, Nat.add_right_cancel_iff] at hlen
    have hcoeff (ds : List Bool) : (polynomial ds).coeff ds.length = 0 :=
      coeff_eq_zero_of_degree_lt (degree_polynomial_lt ds)
    have htop := congrArg (fun p => p.coeff bs.length) h
    simp only [polynomial, coeff_add, hcoeff] at htop
    rw [hlen, hcoeff cs] at htop
    have hbc : b = c := by
      cases b <;> cases c <;> simp_all
    subst hbc
    rw [polynomial, polynomial, hlen] at h
    rw [ih hlen (add_left_cancel h)]

end Texts

section Division

variable {w : Nat} {poly : BitVec w}

theorem monic_generator (poly : BitVec w) : (generator poly).Monic :=
  monic_X_pow_add (by simpa using degree_polynomial_lt (wordBits poly))

theorem polynomial_wordBits_xor (x y : BitVec w) :
    polynomial (wordBits (x ^^^ y)) = polynomial (wordBits x) + polynomial (wordBits y) := by
  have hbits : (x ^^^ y).getLsbD = fun i => x.getLsbD i ^^ y.getLsbD i :=
    funext fun _ => BitVec.getLsbD_xor
  rw [wordBits, hbits, polynomial_xor]
  rfl

theorem polynomial_wordBits_injective :
    Function.Injective fun x : BitVec w => polynomial (wordBits x) := by
  intro x y hxy
  have hbits : wordBits x = wordBits y := polynomial_injective (by simp) hxy
  have hword : (word (wordBits x) : BitVec w) = word (wordBits y) := by rw [hbits]
  rwa [word_wordBits, word_wordBits, BitVec.setWidth_eq, BitVec.setWidth_eq] at hword

/-- The bit that goes out has grown to the highest power. -/
theorem polynomial_ushiftRight (x : BitVec w) : X * polynomial (wordBits x) =
    (if x.getLsbD 0 then X ^ w else 0) + polynomial (wordBits (x >>> 1)) := by
  cases w with
  | zero => simp [wordBits, polynomial]
  | succ m =>
    have hlow : wordBits x = x.getLsbD 0 :: (List.range m).map fun i => x.getLsbD (i + 1) := by
      rw [wordBits, List.range_succ_eq_map, List.map_cons, List.map_map]
      rfl
    have hshift : wordBits (x >>> 1) = ((List.range m).map fun i => x.getLsbD (i + 1)) ++ [false] := by
      rw [wordBits, List.range_succ, List.map_append]
      simp [Nat.add_comm 1]
    rw [hlow, hshift, polynomial, polynomial_concat, mul_add]
    cases x.getLsbD 0 <;> simp [pow_succ']

theorem polynomial_wordBits_zero : polynomial (wordBits 0#w) = 0 := by
  simpa using polynomial_wordBits_xor 0#w 0#w

theorem polynomial_shiftBit (x : BitVec w) : polynomial (wordBits (shiftBit poly x)) =
    X * polynomial (wordBits x) + if x.getLsbD 0 then generator poly else 0 := by
  rw [shiftBit, polynomial_wordBits_xor, polynomial_ushiftRight]
  cases x.getLsbD 0
  · simp [polynomial_wordBits_zero]
  · rw [if_pos rfl, if_pos rfl, if_pos rfl, generator]
    have hcancel : (X : (ZMod 2)[X]) ^ w + X ^ w = 0 := CharTwo.add_self_eq_zero _
    linear_combination -hcancel

/-- A bit comes in at the highest power. -/
theorem polynomial_ofBool (hw : 0 < w) (b : Bool) :
    X * polynomial (wordBits ((BitVec.ofBool b).setWidth w)) = if b then X ^ w else 0 := by
  have hout : (BitVec.ofBool b).setWidth w >>> 1 = 0#w := by
    apply BitVec.eq_of_getLsbD_eq
    intro i hi
    simp [BitVec.getLsbD_setWidth]
  have hlow : ((BitVec.ofBool b).setWidth w).getLsbD 0 = b := by simp [hw]
  rw [polynomial_ushiftRight, hout, hlow, polynomial_wordBits_zero, add_zero]

variable (poly) in
theorem polynomial_bit (hw : 0 < w) (x : BitVec w) (b : Bool) :
    ∃ q, polynomial (wordBits (bit poly x b)) + generator poly * q =
      X * polynomial (wordBits x) + if b then X ^ w else 0 := by
  refine ⟨if (x ^^^ (BitVec.ofBool b).setWidth w).getLsbD 0 then 1 else 0, ?_⟩
  rw [bit, polynomial_shiftBit, polynomial_wordBits_xor, mul_add, polynomial_ofBool hw]
  have hcancel (p : (ZMod 2)[X]) : p + p = 0 := CharTwo.add_self_eq_zero p
  cases (x ^^^ (BitVec.ofBool b).setWidth w).getLsbD 0
  · simp
  · rw [if_pos rfl, if_pos rfl, mul_one, add_assoc, hcancel, add_zero]

variable (poly) in
theorem polynomial_feed_add (hw : 0 < w) (x : BitVec w) (bs : List Bool) :
    ∃ q, polynomial (wordBits (feed poly x bs)) + generator poly * q =
      polynomial (wordBits x) * X ^ bs.length + polynomial bs * X ^ w := by
  induction bs generalizing x with
  | nil => exact ⟨0, by simp [feed, polynomial]⟩
  | cons b bs ih =>
    obtain ⟨c, hc⟩ := polynomial_bit poly hw x b
    obtain ⟨q, hq⟩ := ih (bit poly x b)
    refine ⟨q + X ^ bs.length * c, ?_⟩
    have hfeed : feed poly x (b :: bs) = feed poly (bit poly x b) bs := rfl
    have hhead : (if b then X ^ bs.length else 0) * X ^ w =
        X ^ bs.length * (if b then X ^ w else 0 : (ZMod 2)[X]) := by
      cases b <;> simp
    rw [hfeed, polynomial, List.length_cons, add_mul, hhead]
    linear_combination hq + X ^ bs.length * hc

/-- The register behind a text is the remainder of the text, with the register before it in front
and as many zeros behind as the register has bits. -/
theorem polynomial_feed (hw : 0 < w) (x : BitVec w) (bs : List Bool) :
    polynomial (wordBits (feed poly x bs)) =
      (polynomial (wordBits x) * X ^ bs.length + polynomial bs * X ^ w) %ₘ generator poly := by
  obtain ⟨q, hq⟩ := polynomial_feed_add poly hw x bs
  have hdeg : (polynomial (wordBits (feed poly x bs))).degree < (generator poly).degree := by
    have hlt : (polynomial (wordBits poly)).degree < (w : WithBot Nat) := by
      simpa using degree_polynomial_lt (wordBits poly)
    have hfeed := degree_polynomial_lt (wordBits (feed poly x bs))
    rw [wordBits_length] at hfeed
    rwa [generator, degree_add_eq_left_of_degree_lt (by rwa [degree_X_pow]), degree_X_pow]
  exact (div_modByMonic_unique q _ (monic_generator poly) ⟨hq, hdeg⟩).2.symm

end Division

end Crc
