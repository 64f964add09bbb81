import EdgeNode.Lib.CrcDivision

/-! Bytes as polynomials over the field of two elements, multiplied modulo `X⁸ + X⁴ + X³ + X + 1`. -/

namespace ByteField

open Polynomial Crc

theorem forall_byte {P : UInt8 → Prop} (h : ∀ n < 256, P (UInt8.ofNat n)) (a : UInt8) : P a := by
  have ha := h a.toNat a.toNat_lt
  rwa [UInt8.ofNat_toNat] at ha

theorem table_at {α : Type*} {l : List α} (h : l.length = 256) (a : UInt8) (d : α) :
    l[a.toNat]? = some (l.getD a.toNat d) := by
  have hlt : a.toNat < l.length := by
    rw [h]
    exact a.toNat_lt
  rw [List.getD_eq_getElem?_getD, List.getElem?_eq_getElem hlt, Option.getD_some]

def xtime (a : UInt8) : UInt8 := (a <<< 1) ^^^ if a.toNat.testBit 7 then 0x1b else 0

/-- The product, by the bits of the first factor from the highest on. -/
def product (a b : UInt8) : UInt8 :=
  [7, 6, 5, 4, 3, 2, 1, 0].foldl
    (fun c i => xtime c ^^^ if a.toNat.testBit i then b else 0) 0

section Linear

variable {a b c : UInt8}

theorem testBit_xor (i : Nat) : (a ^^^ b).toNat.testBit i = (a.toNat.testBit i ^^ b.toNat.testBit i) := by
  rw [UInt8.toNat_xor, Nat.testBit_xor]

theorem testBit_shiftLeft (a : UInt8) {i : Nat} (hi : i < 8) :
    (a <<< 1).toNat.testBit i = (decide (0 < i) && a.toNat.testBit (i - 1)) := by
  rw [UInt8.toNat_shiftLeft, Nat.testBit_mod_two_pow, decide_eq_true hi, Bool.true_and,
    show (1 : UInt8).toNat % 8 = 1 from rfl, Nat.testBit_shiftLeft]
  rfl

theorem testBit_xtime {i : Nat} (hi : i < 8) : (xtime a).toNat.testBit i =
    ((decide (0 < i) && a.toNat.testBit (i - 1)) ^^
      (a.toNat.testBit 7 && (0x1b : UInt8).toNat.testBit i)) := by
  rw [xtime, testBit_xor, testBit_shiftLeft a hi]
  cases a.toNat.testBit 7 <;> simp

theorem eq_of_testBit (h : ∀ i < 8, a.toNat.testBit i = b.toNat.testBit i) : a = b := by
  apply UInt8.toNat_inj.mp
  apply Nat.eq_of_testBit_eq
  intro i
  by_cases hi : i < 8
  · exact h i hi
  · have hle : 2 ^ 8 ≤ 2 ^ i := Nat.pow_le_pow_right Nat.two_pos (Nat.le_of_not_lt hi)
    rw [Nat.testBit_lt_two_pow (a.toNat_lt.trans_le hle), Nat.testBit_lt_two_pow (b.toNat_lt.trans_le hle)]

theorem xtime_xor : xtime (a ^^^ b) = xtime a ^^^ xtime b := by
  apply eq_of_testBit
  intro i hi
  rw [testBit_xor, testBit_xtime hi, testBit_xtime hi, testBit_xtime hi, testBit_xor, testBit_xor]
  generalize decide (0 < i) = p
  cases a.toNat.testBit 7 <;> cases b.toNat.testBit 7 <;> cases p <;>
    cases a.toNat.testBit (i - 1) <;> cases b.toNat.testBit (i - 1) <;> simp

theorem xor_xor_xor_comm (a b c d : UInt8) : (a ^^^ b) ^^^ (c ^^^ d) = (a ^^^ c) ^^^ (b ^^^ d) := by
  rw [UInt8.xor_assoc, ← UInt8.xor_assoc b, UInt8.xor_comm b, UInt8.xor_assoc, UInt8.xor_assoc]

theorem product_xor (a b c : UInt8) : product a (b ^^^ c) = product a b ^^^ product a c := by
  have h (l : List Nat) (x y : UInt8) :
      l.foldl (fun z i => xtime z ^^^ if a.toNat.testBit i then b ^^^ c else 0) (x ^^^ y) =
        l.foldl (fun z i => xtime z ^^^ if a.toNat.testBit i then b else 0) x ^^^
          l.foldl (fun z i => xtime z ^^^ if a.toNat.testBit i then c else 0) y := by
    induction l generalizing x y with
    | nil => rfl
    | cons i l ih =>
      rw [List.foldl_cons, List.foldl_cons, List.foldl_cons, ← ih, xtime_xor]
      congr 1
      split
      · exact xor_xor_xor_comm _ _ _ _
      · simp
  exact h [7, 6, 5, 4, 3, 2, 1, 0] 0 0

end Linear

section Polynomials

noncomputable def poly (a : UInt8) : (ZMod 2)[X] :=
  polynomial ((List.range 8).map fun i => a.toNat.testBit (7 - i))

noncomputable def modulus : (ZMod 2)[X] := X ^ 8 + poly 0x1b

variable {a b : UInt8}

theorem poly_zero : poly 0 = 0 := by
  simp [poly, List.range_succ, polynomial]

theorem poly_xor : poly (a ^^^ b) = poly a + poly b := by
  rw [poly, poly, poly, ← polynomial_xor]
  simp only [testBit_xor]

theorem degree_poly_lt (a : UInt8) : (poly a).degree < 8 := by
  have hlt := degree_polynomial_lt ((List.range 8).map fun i => a.toNat.testBit (7 - i))
  rwa [List.length_map, List.length_range] at hlt

theorem poly_injective (h : poly a = poly b) : a = b := by
  have hbits := polynomial_injective (by simp) h
  apply eq_of_testBit
  intro i hi
  have hat := List.map_inj_left.mp hbits (7 - i) (by simp; omega)
  rwa [show 7 - (7 - i) = i by omega] at hat

theorem modulus_monic : modulus.Monic := monic_X_pow_add (degree_poly_lt _)

theorem degree_modulus : modulus.degree = 8 := by
  rw [modulus, degree_add_eq_left_of_degree_lt]
  · exact degree_X_pow 8
  · rw [degree_X_pow]
    exact degree_poly_lt _

theorem polynomial_horner (bs : List Bool) :
    polynomial bs = bs.foldl (fun q b => X * q + if b then 1 else 0) 0 := by
  induction bs using List.reverseRecOn with
  | nil => rfl
  | append_singleton bs b ih => rw [polynomial_concat, List.foldl_concat, ih]

theorem poly_xtime (a : UInt8) :
    poly (xtime a) = X * poly a + if a.toNat.testBit 7 then modulus else 0 := by
  have hshift : poly (a <<< 1) = X * poly a + if a.toNat.testBit 7 then X ^ 8 else 0 := by
    have hbits : (List.range 8).map (fun i => (a <<< 1).toNat.testBit (7 - i)) =
        ((List.range 7).map fun i => a.toNat.testBit (6 - i)) ++ [false] := by
      rw [show List.range 8 = [0, 1, 2, 3, 4, 5, 6, 7] from rfl,
        show List.range 7 = [0, 1, 2, 3, 4, 5, 6] from rfl]
      simp (disch := decide) only [List.map_cons, List.map_nil, List.cons_append, List.nil_append,
        Nat.reduceSub, testBit_shiftLeft]
      simp
    have hhead : poly a = (if a.toNat.testBit 7 then X ^ 7 else 0) +
        polynomial ((List.range 7).map fun i => a.toNat.testBit (6 - i)) := by
      rw [poly, List.range_succ_eq_map, List.map_cons, polynomial, List.map_map]
      simp [Function.comp_def]
    rw [poly, hbits, polynomial_concat, hhead, if_neg Bool.false_ne_true]
    split
    · linear_combination (-X ^ 8 : (ZMod 2)[X]) * (CharTwo.two_eq_zero : (2 : (ZMod 2)[X]) = 0)
    · ring
  rw [xtime, poly_xor, hshift]
  split
  · rw [modulus, add_assoc]
  · rw [poly_zero, add_zero]

/-- The product is what the product of the polynomials leaves behind the modulus. -/
theorem poly_product (a b : UInt8) : poly (product a b) = (poly a * poly b) %ₘ modulus := by
  have hfold (bits : List Nat) (x : UInt8) (p : (ZMod 2)[X]) (hx : modulus ∣ p * poly b - poly x) :
      modulus ∣ (bits.foldl (fun q i => X * q + if a.toNat.testBit i then 1 else 0) p) * poly b -
        poly (bits.foldl (fun c i => xtime c ^^^ if a.toNat.testBit i then b else 0) x) := by
    induction bits generalizing x p with
    | nil => exact hx
    | cons i bits ih =>
      refine ih _ _ ?_
      have hbit : poly (if a.toNat.testBit i then b else 0) =
          (if a.toNat.testBit i then 1 else 0) * poly b := by
        split
        · rw [one_mul]
        · rw [poly_zero, zero_mul]
      have hstep : (X * p + if a.toNat.testBit i then 1 else 0) * poly b -
          poly (xtime x ^^^ if a.toNat.testBit i then b else 0) =
            X * (p * poly b - poly x) - if x.toNat.testBit 7 then modulus else 0 := by
        rw [poly_xor, hbit, poly_xtime]
        ring
      rw [hstep]
      refine dvd_sub (hx.mul_left X) ?_
      split
      · exact dvd_rfl
      · exact dvd_zero _
  have hall := hfold [7, 6, 5, 4, 3, 2, 1, 0] 0 0 (by simp [poly_zero])
  have hpoly : [7, 6, 5, 4, 3, 2, 1, 0].foldl
      (fun (q : (ZMod 2)[X]) i => X * q + if a.toNat.testBit i then 1 else 0) 0 = poly a := by
    rw [poly, polynomial_horner, List.foldl_map]
    rfl
  rw [hpoly] at hall
  obtain ⟨q, hq⟩ := hall
  refine (div_modByMonic_unique q _ modulus_monic ⟨?_, ?_⟩).2.symm
  · rw [← hq, product]
    ring
  · rw [degree_modulus]
    exact degree_poly_lt _

theorem product_comm (a b : UInt8) : product a b = product b a := by
  apply poly_injective
  rw [poly_product, poly_product, mul_comm]

theorem modByMonic_mul (p q : (ZMod 2)[X]) : (p %ₘ modulus * q) %ₘ modulus = (p * q) %ₘ modulus := by
  apply modByMonic_eq_of_dvd_sub modulus_monic
  rw [← sub_mul]
  exact (dvd_modByMonic_sub p modulus).mul_right q

theorem product_assoc (a b c : UInt8) : product (product a b) c = product a (product b c) := by
  apply poly_injective
  rw [poly_product, poly_product, poly_product, poly_product, modByMonic_mul, mul_comm (poly a) (_ %ₘ _),
    modByMonic_mul, mul_assoc, mul_comm (poly a)]

theorem xor_product (a b c : UInt8) : product (a ^^^ b) c = product a c ^^^ product b c := by
  rw [product_comm, product_xor, product_comm c a, product_comm c b]

theorem one_product (a : UInt8) : product 1 a = a := by
  have hzero : xtime 0 = 0 := rfl
  simp [product, hzero, Nat.testBit]

theorem zero_product (a : UInt8) : product 0 a = 0 := by
  have hzero : xtime 0 = 0 := rfl
  simp [product, hzero]

end Polynomials

end ByteField
