import EdgeNode.Json.Tree
import EdgeNode.Lib.Snprintf

/-! `FTE_JSON_VALUE_snprint` as it writes its buffer: where every part of the text starts, and what is
written behind the end. -/

namespace EdgeNode.Json

open Numerals Snprintf

mutual

/-- `FTE_JSON_VALUE_snprint`. -/
def snprintAt (pBuff : UInt32) (nBuffLen : Int32) : Tree → Printed
  | .string pValue => snprintf (printString pValue) pBuff nBuffLen
  | .pair pString pValue =>
    (snprintf (printString pString ++ [':']) pBuff nBuffLen).append pBuff nBuffLen
      fun p n => snprintAt p n pValue
  | .object pPairs =>
    (snprintSlotsAt pBuff nBuffLen Bool.true (snprintf ['{'] pBuff nBuffLen) pPairs).append pBuff
      nBuffLen (snprintf ['}'])
  | .array pElements =>
    (snprintSlotsAt pBuff nBuffLen Bool.true (snprintf ['['] pBuff nBuffLen) pElements).append pBuff
      nBuffLen (snprintf [']'])
  | .number nValue => snprintf (decimal 0 nValue.toInt) pBuff nBuffLen
  | .hex nValue => snprintf ('0' :: 'x' :: Numerals.hex 8 nValue.toUInt32.toNat) pBuff nBuffLen
  | .float nValue => snprintf (printFloat nValue.toInt) pBuff nBuffLen
  | .true => snprintf "true".toList pBuff nBuffLen
  | .false => snprintf "false".toList pBuff nBuffLen
  | .null => snprintf "null".toList pBuff nBuffLen

/-- The loop over the slots, from what is printed before it. -/
def snprintSlotsAt (pBuff : UInt32) (nBuffLen : Int32) (bFirst : Bool) (r : Printed) :
    Slots → Printed
  | .nil => r
  | .empty rest => snprintSlotsAt pBuff nBuffLen bFirst r rest
  | .cons item rest =>
    let r := if bFirst then r else r.append pBuff nBuffLen (snprintf [','])
    snprintSlotsAt pBuff nBuffLen Bool.false
      (r.append pBuff nBuffLen fun p n => snprintAt p n item) rest

end

mutual

/-- The texts that are printed one by one. -/
def pieces : Tree → List (List Char)
  | .string pValue => [printString pValue]
  | .pair pString pValue => (printString pString ++ [':']) :: pieces pValue
  | .object pPairs => ['{'] :: (piecesSlots Bool.true pPairs ++ [['}']])
  | .array pElements => ['['] :: (piecesSlots Bool.true pElements ++ [[']']])
  | .number nValue => [decimal 0 nValue.toInt]
  | .hex nValue => ['0' :: 'x' :: Numerals.hex 8 nValue.toUInt32.toNat]
  | .float nValue => [printFloat nValue.toInt]
  | .true => ["true".toList]
  | .false => ["false".toList]
  | .null => ["null".toList]

def piecesSlots (bFirst : Bool) : Slots → List (List Char)
  | .nil => []
  | .empty rest => piecesSlots bFirst rest
  | .cons item rest =>
    (if bFirst then [] else [[',']]) ++ (pieces item ++ piecesSlots Bool.false rest)

end

section Pieces

mutual

theorem flatten_pieces : ∀ t : Tree, (pieces t).flatten = snprint t
  | .string _ | .number _ | .hex _ | .float _ | .true | .false | .null => List.append_nil _
  | .pair pString pValue => by
    rw [pieces, List.flatten_cons, flatten_pieces pValue, snprint, List.append_assoc]
    rfl
  | .object pPairs => by
    rw [pieces, List.flatten_cons, List.flatten_append, flatten_piecesSlots Bool.true pPairs, snprint]
    rfl
  | .array pElements => by
    rw [pieces, List.flatten_cons, List.flatten_append, flatten_piecesSlots Bool.true pElements,
      snprint]
    rfl

theorem flatten_piecesSlots : ∀ (bFirst : Bool) (s : Slots),
    (piecesSlots bFirst s).flatten = snprintSlots bFirst s
  | _, .nil => rfl
  | bFirst, .empty rest => flatten_piecesSlots bFirst rest
  | bFirst, .cons item rest => by
    rw [piecesSlots, List.flatten_append, List.flatten_append, flatten_pieces item,
      flatten_piecesSlots Bool.false rest, snprintSlots]
    cases bFirst <;> rfl

end

theorem snprintf_eq (text : List Char) : snprintf text = printAll [text] := by
  funext p n
  exact (append_nil _ p n).symm

theorem bracketed_eq {p : UInt32} {n : Int32} {r : Printed} (start stop : List Char)
    (texts : List (List Char)) (h : r = (snprintf start p n).append p n (printAll texts)) :
    r.append p n (snprintf stop) = printAll (start :: (texts ++ [stop])) p n := by
  rw [h, snprintf_eq stop, append_append, printAll, printAll_append]

mutual

theorem snprintAt_eq : ∀ (t : Tree) (p : UInt32) (n : Int32),
    snprintAt p n t = printAll (pieces t) p n
  | .string _, p, n | .number _, p, n | .hex _, p, n | .float _, p, n | .true, p, n | .false, p, n
  | .null, p, n => (append_nil _ p n).symm
  | .pair pString pValue, p, n => by
    have hvalue : (fun q k => snprintAt q k pValue) = printAll (pieces pValue) := by
      funext q k
      exact snprintAt_eq pValue q k
    rw [snprintAt, hvalue]
    rfl
  | .object pPairs, p, n => bracketed_eq _ _ _ (snprintSlotsAt_eq pPairs p n Bool.true _)
  | .array pElements, p, n => bracketed_eq _ _ _ (snprintSlotsAt_eq pElements p n Bool.true _)

theorem snprintSlotsAt_eq : ∀ (s : Slots) (p : UInt32) (n : Int32) (bFirst : Bool) (r : Printed),
    snprintSlotsAt p n bFirst r s = r.append p n (printAll (piecesSlots bFirst s))
  | .nil, p, n, _, r => (append_nil r p n).symm
  | .empty rest, p, n, bFirst, r => snprintSlotsAt_eq rest p n bFirst r
  | .cons item rest, p, n, bFirst, r => by
    have hitem : (fun q k => snprintAt q k item) = printAll (pieces item) := by
      funext q k
      exact snprintAt_eq item q k
    have hcomma : (if bFirst then r else r.append p n (snprintf [','])) =
        r.append p n (printAll (if bFirst then [] else [[',']])) := by
      cases bFirst with
      | false => rw [if_neg Bool.false_ne_true, if_neg Bool.false_ne_true, snprintf_eq]
      | true => rw [if_pos rfl, if_pos rfl, append_nil]
    rw [snprintSlotsAt, hitem, hcomma, snprintSlotsAt_eq rest, append_append, append_append,
      piecesSlots, printAll_append, printAll_append]

end

/-- What is returned is the length of the whole text. -/
theorem snprintAt_nLen (t : Tree) (p : UInt32) (n : Int32) :
    (snprintAt p n t).nLen = Int32.ofNat (snprint t).length := by
  rw [snprintAt_eq, printAll_nLen, flatten_pieces]

end Pieces

section Within

/-- Every part of the text is printed behind the one before it, with the length left as a size: the
first that starts behind the end of the buffer is given nearly the whole of memory. -/
theorem snprintAt_within_iff (t : Tree) (nBuffLen : Int32) :
    (∀ w ∈ (snprintAt 0 nBuffLen t).writes, w.1 < nBuffLen.toUInt32) ↔
      ∀ p ∈ starts 0 (pieces t), p ≤ nBuffLen.toUInt32 := by
  rw [snprintAt_eq]
  exact printAll_within (pieces t) (UInt32.sub_zero _).symm

/-- The comma of `[true,true]` is written behind a buffer of four characters. -/
theorem comma_behind_end :
    ∃ nBuffLen : Int32, 0 < nBuffLen ∧
      ¬ ∀ w ∈ (snprintAt 0 nBuffLen (.array (.cons .true (.cons .true .nil)))).writes,
        w.1 < nBuffLen.toUInt32 :=
  ⟨4, by decide, by decide⟩

/-- An object or an array stays in its buffer if no more than its closing bracket is left out. -/
theorem starts_bracket_iff {t : Tree} {texts : List (List Char)} {c : Char} {m : UInt32}
    (ht : pieces t = texts ++ [[c]]) (hlen : (snprint t).length ≤ 2 ^ 32) :
    (∀ p ∈ starts 0 (pieces t), p ≤ m) ↔ (snprint t).length ≤ m.toNat + 1 := by
  have htext : (snprint t).length = texts.flatten.length + 1 := by
    rw [← flatten_pieces, ht, List.flatten_append, List.length_append]
    rfl
  have hzero : (0 : UInt32).toNat = 0 := rfl
  rw [ht, starts_le_iff texts [c] (by omega), hzero, htext]
  omega

end Within

end EdgeNode.Json
