import EdgeNode.Types
import EdgeNode.Lib.Numerals

/-! Values as text: `FTE_VALUE_toString` and `FTE_VALUE_set`. -/

namespace EdgeNode.Values

open Numerals

/-- `FTE_VALUE_TYPE` -/
inductive ValueType where
  | ulong
  | bool
  | temperature
  | humidity
  | ppm
  | dio
  | voltage
  | current
  | pressure
  | led
  | pwrKwh
  | pwrKw
  | hex32
  | ph
  | mm
  deriving DecidableEq

/-- `FTE_VALUE`, whose union is one word whatever the type. -/
structure Value where
  xType : ValueType
  bValid : Bool
  ulFailCount : UInt32
  xData : UInt32
  deriving DecidableEq

def Value.nValue (v : Value) : Int := v.xData.toInt32.toInt

section Print

/-- `%0kd` of a word. -/
def printWord (k : Nat) (u : UInt32) : List Char := decimal k u.toInt32.toInt

def printPoint (k : Nat) (whole part : UInt32) : List Char :=
  printWord 0 whole ++ '.' :: printWord k part

/-- `abs` of an `int`; the least one has no negation and stays. -/
def cAbs (n : Int) : Int := if n = -2 ^ 31 then n else n.natAbs

/-- Up to 1000 the thousandths, from there on the hundredths. -/
def printThousandths (u : UInt32) : List Char :=
  if u < 1000 then printPoint 3 (u / 1000) (u % 1000)
  else printPoint 2 (u / 1000) (u % 1000 / 10)

/-- The text left in a buffer with room for it; for a type without a case the buffer stays as it
is. -/
def toString (v : Value) : Option (List Char) :=
  let u := v.xData
  if v.bValid = false then some "N/A".toList
  else match v.xType with
    | .temperature => some (decimal 0 (v.nValue.tdiv 100) ++
        '.' :: decimal 0 (((cAbs v.nValue).tmod 100).tdiv 10))
    | .humidity => some (printPoint 0 (u / 100) (u % 100 / 10))
    | .dio => some (if u ≠ 0 then ['1'] else ['0'])
    | .led =>
      match u.toNat with
      | 0 => some "off".toList
      | 1 => some "on".toList
      | 2 => some "blink".toList
      | _ => some (printWord 0 u)
    | .voltage | .current =>
      if u < 1000 then some (printPoint 2 (u / 1000) (u % 1000 / 10))
      else some (printPoint 0 (u / 1000) (u % 1000 / 100))
    | .pwrKw | .pwrKwh | .pressure => some (printThousandths u)
    | .ppm | .ulong => some (printWord 0 u)
    | .ph | .mm => some (printPoint 2 (u / 100) (u % 100))
    | .hex32 => some ('0' :: 'x' :: hex 8 u.toNat)
    | .bool => none

end Print

section Parse

/-- A conversion of a double to `FTE_UINT32`, undefined out of the range of the word. -/
def toUINT32 (x : ℚ) : Option UInt32 :=
  if -1 < x ∧ x < 2 ^ 32 then some (UInt32.ofNat ⌊x⌋₊) else none

def strcasecmp (s : List Char) (t : String) : Bool :=
  s.map Char.toLower = t.toList.map Char.toLower

def setValid (v : Value) (bValid : Bool) : Value :=
  if bValid then { v with ulFailCount := 0, bValid := true }
  else
    let ulFailCount := v.ulFailCount + 1
    { v with ulFailCount, bValid := v.bValid && ulFailCount < 3 }

def accept (v : Value) (xData : UInt32) : Ret × Value := (retOk, setValid { v with xData } true)

def refuse (v : Value) : Ret × Value := (retError, setValid v false)

/-- `nValue` of `FTE_VALUE_TYPE_PPM`, `PH` and `MM`. -/
def acceptInt (v : Value) (nValue : Int) : Ret × Value :=
  if nValue < 0 then refuse v else accept v (UInt32.ofNat nValue.toNat)

/-- `FTE_VALUE_set`; without a value where a conversion is undefined. -/
def set (v : Value) (pString : List Char) : Option (Ret × Value) :=
  match v.xType with
  | .ulong => some (accept v (strtoul 10 pString))
  | .hex32 => some (accept v (strtoul 16 pString))
  | .voltage | .current | .pwrKw | .pwrKwh => (toUINT32 (strtod pString * 1000)).map (accept v)
  | .pressure => (toUINT32 (strtod pString * 10)).map (accept v)
  | .bool =>
    if strcasecmp pString "true" || strcasecmp pString "1" then some (accept v 1)
    else if strcasecmp pString "false" || strcasecmp pString "0" then some (accept v 0)
    else some (refuse v)
  | .temperature => (toUINT32 (strtod pString * 100)).map (accept v)
  | .humidity =>
    let fValue := strtod pString
    if fValue < 0 ∨ 100 < fValue then some (refuse v)
    else (toUINT32 (fValue * 100)).map (accept v)
  | .ppm | .ph | .mm => some (acceptInt v (strtol 10 pString))
  | .dio =>
    if strcasecmp pString "on" || strcasecmp pString "1" then some (accept v 1)
    else if strcasecmp pString "off" || strcasecmp pString "0" then some (accept v 0)
    else some (refuse v)
  | .led =>
    if strcasecmp pString "on" || strcasecmp pString "1" then some (accept v 1)
    else if strcasecmp pString "off" || strcasecmp pString "0" then some (accept v 0)
    else if strcasecmp pString "blink" || strcasecmp pString "2" then some (accept v 2)
    else some (refuse v)

end Parse

end EdgeNode.Values
