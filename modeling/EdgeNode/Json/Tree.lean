import EdgeNode.Lib.JsonText
import EdgeNode.Values.Text

/-! The JSON trees of `fte_json.c`, their text and what they stand for. -/

namespace EdgeNode.Json

open Numerals JsonText

/-- The text of a string in memory, which ends at the first NUL. -/
abbrev CString := { cs : List Char // '\x00' ∉ cs }

mutual

/-- `FTE_JSON_VALUE` with the structures it stands for; `nMaxCount` is the number of slots. -/
inductive Tree where
  | string (pValue : CString)
  | number (nValue : Int32)
  | hex (nValue : Int32)
  | float (nValue : Int32)
  | pair (pString : CString) (pValue : Tree)
  | object (pPairs : Slots)
  | array (pElements : Slots)
  | true
  | false
  | null

/-- The slots of an object or an array, some of them `NULL`. -/
inductive Slots where
  | nil
  | empty (rest : Slots)
  | cons (item : Tree) (rest : Slots)

end

/-- `FTE_JSON_VALUE_createValue`; for a type without a case there is no tree. -/
def createValue (v : Values.Value) : Option Tree :=
  match v.xType with
  | .bool | .dio | .led => some (if v.xData ≠ 0 then .number 1 else .number 0)
  | .ulong | .ppm => some (.number v.xData.toInt32)
  | .hex32 => some (.hex v.xData.toInt32)
  | .temperature | .humidity | .voltage | .current | .pressure | .pwrKwh | .pwrKw | .ph =>
    some (.float v.xData.toInt32)
  | .mm => none

def printString (s : CString) : List Char := '"' :: (s.val ++ ['"'])

def printFloat (nValue : Int) : List Char :=
  if nValue.tmod 100 = 0 then decimal 0 (nValue.tdiv 100)
  else decimal 0 (nValue.tdiv 100) ++ '.' :: decimal 2 (nValue.tmod 100)

mutual

/-- `FTE_JSON_VALUE_snprint` into a buffer with room for all of it. -/
def snprint : Tree → List Char
  | .string pValue => printString pValue
  | .pair pString pValue => printString pString ++ ':' :: snprint pValue
  | .object pPairs => '{' :: (snprintSlots Bool.true pPairs ++ ['}'])
  | .array pElements => '[' :: (snprintSlots Bool.true pElements ++ [']'])
  | .number nValue => decimal 0 nValue.toInt
  | .hex nValue => '0' :: 'x' :: Numerals.hex 8 nValue.toUInt32.toNat
  | .float nValue => printFloat nValue.toInt
  | .true => "true".toList
  | .false => "false".toList
  | .null => "null".toList

def snprintSlots (bFirst : Bool) : Slots → List Char
  | .nil => []
  | .empty rest => snprintSlots bFirst rest
  | .cons item rest =>
    (if bFirst then [] else [',']) ++ (snprint item ++ snprintSlots Bool.false rest)

end

mutual

/-- The value that a tree stands for. A pair is none by itself. -/
def denote : Tree → Option Json
  | .string pValue => some (.string pValue.val)
  | .pair _ _ => none
  | .object pPairs => (members pPairs).map .object
  | .array pElements => (elements pElements).map .array
  | .number nValue => some (.number nValue.toInt)
  | .hex nValue => some (.number nValue.toUInt32.toNat)
  | .float nValue => some (.number (nValue.toInt / 100))
  | .true => some (.bool Bool.true)
  | .false => some (.bool Bool.false)
  | .null => some .null

def member : Tree → Option (List Char × Json)
  | .pair pString pValue => (denote pValue).map (pString.val, ·)
  | _ => none

def elements : Slots → Option (List Json)
  | .nil => some []
  | .empty rest => elements rest
  | .cons item rest => (denote item).bind fun j => (elements rest).map (j :: ·)

def members : Slots → Option (List (List Char × Json))
  | .nil => some []
  | .empty rest => members rest
  | .cons item rest => (member item).bind fun m => (members rest).map (m :: ·)

end

mutual

/-- No string needs an escape, no number is hexadecimal or has a negative fraction, and pairs are the
members of objects, and nothing else is. -/
def Printable : Tree → Prop
  | .string pValue => Plain pValue.val
  | .pair _ _ => False
  | .object pPairs => PrintableMembers pPairs
  | .array pElements => PrintableElements pElements
  | .hex _ => False
  | .float nValue => 0 ≤ nValue.toInt ∨ nValue.toInt.tmod 100 = 0
  | _ => True

def PrintableMember : Tree → Prop
  | .pair pString pValue => Plain pString.val ∧ Printable pValue
  | _ => False

def PrintableElements : Slots → Prop
  | .nil => True
  | .empty rest => PrintableElements rest
  | .cons item rest => Printable item ∧ PrintableElements rest

def PrintableMembers : Slots → Prop
  | .nil => True
  | .empty rest => PrintableMembers rest
  | .cons item rest => PrintableMember item ∧ PrintableMembers rest

end

def Decodes (t : Tree) : Prop := ∃ j, denote t = some j ∧ Denotes (snprint t) j

def Slots.toList : Slots → List Tree
  | .nil => []
  | .empty rest => rest.toList
  | .cons item rest => item :: rest.toList

/-- Induction over a tree, with the items of an object or array all at once. -/
@[elab_as_elim]
theorem Tree.induct {P : Tree → Prop} (string : ∀ s, P (.string s)) (number : ∀ n, P (.number n))
    (hex : ∀ n, P (.hex n)) (float : ∀ n, P (.float n)) (pair : ∀ s v, P v → P (.pair s v))
    (object : ∀ s : Slots, (∀ t ∈ s.toList, P t) → P (.object s))
    (array : ∀ s : Slots, (∀ t ∈ s.toList, P t) → P (.array s)) (true : P .true) (false : P .false)
    (null : P .null) (t : Tree) : P t := by
  refine @Tree.rec P (fun s => ∀ t ∈ s.toList, P t) string number hex float pair object array true
    false null ?_ ?_ ?_ t
  · intro t ht
    simp [Slots.toList] at ht
  · intro rest hrest
    exact hrest
  · intro item rest hitem hrest t ht
    obtain rfl | ht := List.mem_cons.mp ht
    · exact hitem
    · exact hrest t ht

section Items

theorem snprintSlots_eq : ∀ s : Slots,
    snprintSlots Bool.true s = join (s.toList.map snprint) ∧
      snprintSlots Bool.false s =
        if s.toList = [] then [] else ',' :: join (s.toList.map snprint)
  | .nil => ⟨rfl, rfl⟩
  | .empty rest => snprintSlots_eq rest
  | .cons item rest => by
    have hrest := (snprintSlots_eq rest).2
    have htext : snprint item ++ snprintSlots Bool.false rest =
        join ((Slots.cons item rest).toList.map snprint) := by
      rw [hrest, Slots.toList]
      cases hl : rest.toList with
      | nil => simp [join]
      | cons t l => simp [join]
    constructor
    · rw [snprintSlots, if_pos rfl, List.nil_append, htext]
    · rw [snprintSlots, if_neg Bool.false_ne_true, htext, if_neg (by simp [Slots.toList])]
      rfl

theorem elements_eq : ∀ (s : Slots) (js : List Json), elements s = some js ↔
    List.Forall₂ (fun t j => denote t = some j) s.toList js
  | .nil, js => by
    rw [elements, Slots.toList, List.forall₂_nil_left_iff, Option.some.injEq, eq_comm]
  | .empty rest, js => elements_eq rest js
  | .cons item rest, js => by
    rw [elements, Slots.toList, List.forall₂_cons_left_iff]
    simp only [Option.bind_eq_some_iff, Option.map_eq_some_iff, elements_eq rest]
    constructor
    · rintro ⟨j, hj, l, hl, rfl⟩
      exact ⟨j, l, hj, hl, rfl⟩
    · rintro ⟨j, l, hj, hl, rfl⟩
      exact ⟨j, hj, l, hl, rfl⟩

theorem members_eq : ∀ (s : Slots) (ms : List (List Char × Json)), members s = some ms ↔
    List.Forall₂ (fun t m => member t = some m) s.toList ms
  | .nil, ms => by
    rw [members, Slots.toList, List.forall₂_nil_left_iff, Option.some.injEq, eq_comm]
  | .empty rest, ms => members_eq rest ms
  | .cons item rest, ms => by
    rw [members, Slots.toList, List.forall₂_cons_left_iff]
    simp only [Option.bind_eq_some_iff, Option.map_eq_some_iff, members_eq rest]
    constructor
    · rintro ⟨m, hm, l, hl, rfl⟩
      exact ⟨m, l, hm, hl, rfl⟩
    · rintro ⟨m, l, hm, hl, rfl⟩
      exact ⟨m, hm, l, hl, rfl⟩

theorem printableElements_iff : ∀ s : Slots, PrintableElements s ↔ ∀ t ∈ s.toList, Printable t
  | .nil => by simp [PrintableElements, Slots.toList]
  | .empty rest => printableElements_iff rest
  | .cons item rest => by simp [PrintableElements, Slots.toList, printableElements_iff rest]

theorem printableMembers_iff : ∀ s : Slots, PrintableMembers s ↔ ∀ t ∈ s.toList, PrintableMember t
  | .nil => by simp [PrintableMembers, Slots.toList]
  | .empty rest => printableMembers_iff rest
  | .cons item rest => by simp [PrintableMembers, Slots.toList, printableMembers_iff rest]

end Items

end EdgeNode.Json
