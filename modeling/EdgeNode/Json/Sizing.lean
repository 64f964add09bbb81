import EdgeNode.Json.Bounds

/-! `FTE_JSON_VALUE_buffSize`: the room that it asks for takes the text of a tree. -/

namespace EdgeNode.Json

open Numerals Snprintf

mutual

/-- `FTE_JSON_VALUE_buffSize`. What `snprintf` returns does not depend on the 128 characters that it
prints into. -/
def buffSize : Tree → Nat
  | .string pValue => (printString pValue).length + 1
  | .pair pString pValue => (printString pString ++ [':']).length + buffSize pValue + 1
  | .object pPairs => ['{'].length + buffSizeSlots Bool.true pPairs + ['}'].length + 1
  | .array pElements => ['['].length + buffSizeSlots Bool.true pElements + [']'].length + 1
  | .number nValue => (decimal 0 nValue.toInt).length + 1
  | .hex nValue => ('0' :: 'x' :: Numerals.hex 8 nValue.toUInt32.toNat).length + 1
  | .float nValue => (printFloat nValue.toInt).length + 1
  | .true => "true".toList.length + 1
  | .false => "false".toList.length + 1
  | .null => "null".toList.length + 1

def buffSizeSlots (bFirst : Bool) : Slots → Nat
  | .nil => 0
  | .empty rest => buffSizeSlots bFirst rest
  | .cons item rest =>
    (if bFirst then 0 else [','].length) + (buffSize item + buffSizeSlots Bool.false rest)

end

section Sizes

mutual

/-- Every value of a tree counts one character more than its own text. -/
theorem length_lt_buffSize : ∀ t : Tree, (snprint t).length < buffSize t
  | .string _ | .number _ | .hex _ | .float _ | .true | .false | .null => Nat.lt_succ_self _
  | .pair pString pValue => by
    have hvalue := length_lt_buffSize pValue
    simp only [snprint, buffSize, List.length_append, List.length_cons, List.length_nil]
    omega
  | .object pPairs => by
    have hslots := length_le_buffSizeSlots Bool.true pPairs
    simp only [snprint, buffSize, List.length_append, List.length_cons, List.length_nil]
    omega
  | .array pElements => by
    have hslots := length_le_buffSizeSlots Bool.true pElements
    simp only [snprint, buffSize, List.length_append, List.length_cons, List.length_nil]
    omega

theorem length_le_buffSizeSlots : ∀ (bFirst : Bool) (s : Slots),
    (snprintSlots bFirst s).length ≤ buffSizeSlots bFirst s
  | _, .nil => Nat.le_refl 0
  | bFirst, .empty rest => length_le_buffSizeSlots bFirst rest
  | bFirst, .cons item rest => by
    have hitem := length_lt_buffSize item
    have hrest := length_le_buffSizeSlots Bool.false rest
    have hcomma : (if bFirst then [] else [',']).length = if bFirst then 0 else [','].length := by
      cases bFirst <;> rfl
    rw [snprintSlots, List.length_append, List.length_append, hcomma, buffSizeSlots]
    omega

end

theorem exists_last : ∀ t : Tree, ∃ texts last, pieces t = texts ++ [last]
  | .string _ | .number _ | .hex _ | .float _ | .true | .false | .null => ⟨[], _, rfl⟩
  | .object pPairs => ⟨['{'] :: piecesSlots Bool.true pPairs, _, rfl⟩
  | .array pElements => ⟨['['] :: piecesSlots Bool.true pElements, _, rfl⟩
  | .pair pString pValue => by
    obtain ⟨texts, last, h⟩ := exists_last pValue
    refine ⟨(printString pString ++ [':']) :: texts, last, ?_⟩
    rw [pieces, h]
    rfl

/-- A buffer with room for the terminator as well holds the whole text. -/
theorem store_snprintAt (t : Tree) {nBuffLen : Int32} {pBuff : List Char}
    (hsize : pBuff.length = nBuffLen.toUInt32.toNat) (hroom : (snprint t).length < pBuff.length) :
    ∃ rest, store pBuff (snprintAt 0 nBuffLen t).writes = snprint t ++ '\x00' :: rest := by
  obtain ⟨texts, last, hlast⟩ := exists_last t
  have htext : (texts ++ [last]).flatten = snprint t := by rw [← hlast, flatten_pieces]
  rw [snprintAt_eq, hlast, ← htext]
  exact store_printAll [] pBuff texts last (UInt32.sub_zero _).symm hsize (by rwa [htext])

/-- The size is greater than the length of the text, so that a buffer of that size takes all of it. -/
theorem buffSize_suffices (t : Tree) : (snprint t).length < buffSize t ∧
    ∀ (nBuffLen : Int32) (pBuff : List Char), nBuffLen.toInt = buffSize t →
      pBuff.length = buffSize t →
      ∃ rest, store pBuff (snprintAt 0 nBuffLen t).writes = snprint t ++ '\x00' :: rest := by
  refine ⟨length_lt_buffSize t, ?_⟩
  intro nBuffLen pBuff hn hlen
  apply store_snprintAt t
  · rw [hlen, Words.toNat_toUInt32 hn]
  · rw [hlen]
    exact length_lt_buffSize t

end Sizes

end EdgeNode.Json
