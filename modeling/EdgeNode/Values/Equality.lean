import EdgeNode.Values.Text
import Mathlib.Data.Set.Defs

/-! `FTE_VALUE_equal`: on which sets of values it is an equality. -/

namespace EdgeNode.Values

/-- `FTE_VALUE_equal`; the first test compares a type with itself. `bValue` is the whole word. -/
def equal (pValue1 pValue2 : Value) : Bool :=
  if pValue1.xType ≠ pValue1.xType then false
  else match pValue1.xType with
    | .temperature | .pressure => pValue1.nValue = pValue2.nValue
    | .humidity | .voltage | .current | .pwrKwh | .pwrKw | .ppm | .ph | .mm | .ulong | .hex32 =>
      pValue1.nValue = pValue2.nValue
    | .dio | .led => pValue1.xData = pValue2.xData
    | .bool => false

/-- An equality of the values of `S`: an equivalence that tells types apart and sees all the data. -/
structure EqualityOn (S : Set Value) : Prop where
  equivalence : Equivalence fun v w : S => equal v.val w.val = true
  types : ∀ v ∈ S, ∀ w ∈ S, v.xType ≠ w.xType → equal v w = false
  data : ∀ v ∈ S, ∀ w ∈ S, v.xType = w.xType → (equal v w = true ↔ v.xData = w.xData)

variable {v w : Value} {S : Set Value}

theorem nValue_eq_iff : v.nValue = w.nValue ↔ v.xData = w.xData := by
  constructor
  · intro h
    have hword : v.xData.toInt32 = w.xData.toInt32 := Int32.toInt_inj.mp h
    rw [← UInt32.toUInt32_toInt32 v.xData, hword, UInt32.toUInt32_toInt32]
  · intro h
    rw [Value.nValue, h, Value.nValue]

/-- A boolean value is equal to none; any other to the values with its data, whatever their type. -/
theorem equal_iff : equal v w = true ↔ v.xType ≠ .bool ∧ v.xData = w.xData := by
  rw [equal, if_neg (not_not_intro rfl)]
  cases v.xType <;> simp [nValue_eq_iff]

theorem equalityOn_iff : EqualityOn S ↔ (∀ v ∈ S, v.xType ≠ .bool) ∧
    ∀ v ∈ S, ∀ w ∈ S, v.xData = w.xData → v.xType = w.xType := by
  constructor
  · intro h
    have hbool : ∀ v ∈ S, v.xType ≠ .bool := fun v hv =>
      (equal_iff.mp (h.equivalence.refl ⟨v, hv⟩)).1
    refine ⟨hbool, fun v hv w hw hdata => ?_⟩
    by_contra hne
    have hequal : equal v w = true := equal_iff.mpr ⟨hbool v hv, hdata⟩
    rw [h.types v hv w hw hne] at hequal
    cases hequal
  · rintro ⟨hbool, htypes⟩
    refine ⟨⟨fun v => ?_, fun {v w} h => ?_, fun {v w u} h h' => ?_⟩, ?_, ?_⟩
    · exact equal_iff.mpr ⟨hbool v v.property, rfl⟩
    · exact equal_iff.mpr ⟨hbool w w.property, (equal_iff.mp h).2.symm⟩
    · exact equal_iff.mpr ⟨hbool v v.property, (equal_iff.mp h).2.trans (equal_iff.mp h').2⟩
    · intro v hv w hw hne
      rw [Bool.eq_false_iff]
      exact fun h => hne (htypes v hv w hw (equal_iff.mp h).2)
    · intro v hv w hw _
      exact equal_iff.trans (and_iff_right (hbool v hv))

/-- A voltage is equal to the temperature with its word. -/
theorem types_confused : ¬ EqualityOn Set.univ := by
  intro h
  have hfalse := h.types ⟨.temperature, true, 0, 2150⟩ trivial ⟨.voltage, true, 0, 2150⟩ trivial
    (by decide)
  revert hfalse
  decide

end EdgeNode.Values
