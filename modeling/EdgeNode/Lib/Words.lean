import Mathlib.Algebra.Group.Int.Defs
import Mathlib.Algebra.GroupWithZero.Nat
import Mathlib.Tactic.Common

/-! Words that stand for integers: sums and differences of words against those of the integers, and
the comparison of two words against that of two signed integers. -/

namespace Words

def Stands (u : UInt32) (z : Int) : Prop := (u.toNat : Int) = z % 2 ^ 32

/-- The integer is one of a signed word. -/
def Signed (z : Int) : Prop := -2 ^ 31 ≤ z ∧ z < 2 ^ 31

instance (z : Int) : Decidable (Signed z) := inferInstanceAs (Decidable (_ ∧ _))

variable {u w : UInt32} {x y : Int}

theorem signed_toInt (v : Int32) : Signed v.toInt := ⟨v.le_toInt, v.toInt_lt⟩

theorem stands_toNat (u : UInt32) : Stands u u.toNat := by
  have := u.toNat_lt
  simp only [Stands]
  omega

theorem stands_toUInt32 (v : Int32) : Stands v.toUInt32 v.toInt := by
  have hv := v.toUInt32.toNat_lt
  have hb : v.toInt = (v.toUInt32.toNat : Int).bmod (2 ^ 32) := BitVec.toInt_eq_toNat_bmod v.toBitVec
  rw [Stands, hb, Int.bmod_def]
  split <;> omega

/-- A word that is not negative is the same without its sign. -/
theorem toNat_toUInt32 {n : Int32} {k : Nat} (h : n.toInt = k) : n.toUInt32.toNat = k := by
  have hword := stands_toUInt32 n
  have hrange := n.toInt_lt
  simp only [Stands] at hword
  omega

theorem toNat_succ (h : u.toNat + 1 < 2 ^ 32) : (u + 1).toNat = u.toNat + 1 := by
  rw [UInt32.toNat_add, UInt32.toNat_one, Nat.mod_eq_of_lt h]

theorem toNat_pred (h : 0 < u.toNat) : (u - 1).toNat = u.toNat - 1 :=
  UInt32.toNat_sub_of_le _ _ (UInt32.le_iff_toNat_le.mpr h)

theorem Stands.add (hu : Stands u x) (hw : Stands w y) : Stands (u + w) (x + y) := by
  simp only [Stands, UInt32.toNat_add] at *
  omega

theorem Stands.sub (hu : Stands u x) (hw : Stands w y) : Stands (u - w) (x - y) := by
  have := w.toNat_lt
  simp only [Stands, UInt32.toNat_sub] at *
  omega

/-- Words that stand for integers of one sign compare as these do; otherwise the word of the negative
integer is the greater. -/
theorem Stands.lt_iff (hu : Stands u x) (hw : Stands w y) (hx : Signed x) (hy : Signed y) :
    u < w ↔ (x < y ∧ (x < 0 ↔ y < 0)) ∨ (0 ≤ x ∧ y < 0) := by
  rw [UInt32.lt_iff_toNat_lt]
  simp only [Stands, Signed] at *
  omega

end Words
