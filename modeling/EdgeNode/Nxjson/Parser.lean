import EdgeNode.Lib.CString
import EdgeNode.Lib.Numerals

/-! The parser of `nxjson.c`. It works on the text in place: strings and keys are unescaped where they
stand, and the nodes point to them there. A function is without a value where it leaves the buffer or
has no turns left. -/

namespace EdgeNode.Nxjson

open CString

/-- `nx_json` by its type, over the doubles `δ` and the texts `τ`. -/
inductive Value (δ τ : Type) where
  | null
  | object
  | array
  | string (text_value : τ)
  | integer (int_value : Int64) (dbl_value : δ)
  | double (int_value : Int64) (dbl_value : δ)
  | bool (int_value : Int64)

/-- `nx_json` with its children from `child` on. -/
inductive Node (δ τ : Type) where
  | mk (key : Option τ) (type : Value δ τ) (child : List (Node δ τ))

/-- The arithmetic of doubles: what `strtod` reads, how many characters it takes of the text and whether
it sets `ERANGE`. -/
structure Doubles (δ : Type) where
  strtod : List Char → δ × Nat × Bool
  ofInt : Int64 → δ
  strtod_le : ∀ cs, (strtod cs).2.1 ≤ cs.length

/-- The buffer of the text, and whether `errno` is `ERANGE`. The parser never clears it. -/
structure Memory where
  buf : List UInt8
  erange : Bool

def isWhitespace (c : UInt8) : Bool := c ≤ ' '.toUInt8

section Strings

/-- `unicode_to_utf8` with the bytes that it writes. The comparison for surrogates is one of unsigned
words. -/
def unicodeToUtf8 (codepoint : Nat) : Option (List UInt8) :=
  if codepoint < 0x80 then some [UInt8.ofNat codepoint]
  else if codepoint < 0x800 then
    some [UInt8.ofNat (192 + codepoint / 64), UInt8.ofNat (128 + codepoint % 64)]
  else if (codepoint + 0x100000000 - 0xd800) % 0x100000000 < 0x800 then none
  else if codepoint < 0x10000 then
    some [UInt8.ofNat (224 + codepoint / 4096), UInt8.ofNat (128 + codepoint / 64 % 64),
      UInt8.ofNat (128 + codepoint % 64)]
  else if codepoint < 0x110000 then
    some [UInt8.ofNat (240 + codepoint / 262144), UInt8.ofNat (128 + codepoint / 4096 % 64),
      UInt8.ofNat (128 + codepoint / 64 % 64), UInt8.ofNat (128 + codepoint % 64)]
  else none

/-- `hex_val`, without a value for -1. -/
def hexVal (c : UInt8) : Option Nat :=
  if '0'.toUInt8 ≤ c ∧ c ≤ '9'.toUInt8 then some (c.toNat - 48)
  else if 'a'.toUInt8 ≤ c ∧ c ≤ 'f'.toUInt8 then some (c.toNat - 97 + 10)
  else if 'A'.toUInt8 ≤ c ∧ c ≤ 'F'.toUInt8 then some (c.toNat - 65 + 10)
  else none

/-- What one character behind a backslash stands for. -/
def escaped (c : UInt8) : Option UInt8 :=
  if c = '\\'.toUInt8 ∨ c = '/'.toUInt8 ∨ c = '"'.toUInt8 then some c
  else if c = 'b'.toUInt8 then some 8
  else if c = 'f'.toUInt8 then some 12
  else if c = 'n'.toUInt8 then some 10
  else if c = 'r'.toUInt8 then some 13
  else if c = 't'.toUInt8 then some 9
  else none

def unit (h1 h2 h3 h4 : Nat) : Nat := h1 <<< 12 ||| h2 <<< 8 ||| h3 <<< 4 ||| h4

def isHigh (codepoint : Nat) : Bool := codepoint &&& 0xfc00 = 0xd800

def isLow (codepoint : Nat) : Bool := codepoint &&& 0xfc00 = 0xdc00

def joined (codepoint codepoint2 : Nat) : Nat :=
  0x10000 + (codepoint - 0xd800) <<< 10 + (codepoint2 - 0xdc00)

/-- Four hexadecimal digits from `p` on, read up to the first character that is none. -/
def hex4 (buf : List UInt8) (p : Nat) : Option (Option Nat) := do
  match hexVal (← buf[p]?) with
  | none => some none
  | some h1 =>
    match hexVal (← buf[p + 1]?) with
    | none => some none
    | some h2 =>
      match hexVal (← buf[p + 2]?) with
      | none => some none
      | some h3 =>
        match hexVal (← buf[p + 3]?) with
        | none => some none
        | some h4 => some (some (unit h1 h2 h3 h4))

/-- The code point of the escape whose `u` is at `p`, which takes a second one if it is a high
surrogate, and where the last `u` is. -/
def codepoint (buf : List UInt8) (p : Nat) : Option (Option (Nat × Nat)) := do
  match ← hex4 buf (p + 1) with
  | none => some none
  | some c =>
    if isHigh c then
      if (← buf[p + 5]?) ≠ '\\'.toUInt8 then some none
      else if (← buf[p + 6]?) ≠ 'u'.toUInt8 then some none
      else
        match ← hex4 buf (p + 7) with
        | none => some none
        | some c2 => some (if isLow c2 then some (joined c c2, p + 6) else none)
    else some (some (c, p))

/-- The loop of `unescape_string`, which reads at `p` and writes at `d`; with the encoder or without
one. The answer is where the text goes on behind the closing quote. -/
def unescape (encoder : Bool) : Nat → List UInt8 → Nat → Nat → Option (Option Nat × List UInt8)
  | 0, _, _, _ => none
  | n + 1, buf, p, d => do
    let c ← buf[p]?
    if c = 0 then some (none, buf)
    else if c = '"'.toUInt8 then
      let buf ← poke buf d 0
      some (some (p + 1), buf)
    else if c = '\\'.toUInt8 then
      let e ← buf[p + 1]?
      match escaped e with
      | some b =>
        let buf ← poke buf d b
        unescape encoder n buf (p + 2) (d + 1)
      | none =>
        if e = 'u'.toUInt8 ∧ encoder then
          match ← codepoint buf (p + 1) with
          | none => some (none, buf)
          | some (c, p) =>
            match unicodeToUtf8 c with
            | none => some (none, buf)
            | some bs =>
              let buf ← pokeBytes buf d bs
              unescape encoder n buf (p + 5) (d + bs.length)
        else
          -- the backslash is left untouched
          let buf ← poke buf d c
          unescape encoder n buf (p + 1) (d + 1)
    else
      let buf ← poke buf d c
      unescape encoder n buf (p + 1) (d + 1)

end Strings

section Comments

/-- The loop of `skip_block_comment`. -/
def endOfComment : Nat → List UInt8 → Nat → Option (Option Nat)
  | 0, _, _ => none
  | n + 1, buf, p => do
    match ← strchr buf (p + 1) '/'.toUInt8 with
    | none => some none
    | some p =>
      if (← buf[p - 1]?) ≠ '*'.toUInt8 then endOfComment n buf p else some (some (p + 1))

def skipBlockComment (n : Nat) (buf : List UInt8) (p : Nat) : Option (Option Nat) := do
  if (← buf[p]?) = 0 then some none else endOfComment n buf p

/-- The comment whose slash is at `p`, as it is skipped in `parse_key` and in `parse_value`. -/
def skipComment (n : Nat) (buf : List UInt8) (p : Nat) : Option (Option Nat) := do
  let c ← buf[p + 1]?
  if c = '/'.toUInt8 then
    let p ← strchr buf (p + 2) '\n'.toUInt8
    some (p.map (· + 1))
  else if c = '*'.toUInt8 then skipBlockComment n buf (p + 2)
  else some none

end Comments

section Keys

/-- `while (*p && IS_WHITESPACE(*p)) p++` -/
def skipSpaces : List UInt8 → Nat → Option Nat
  | [], _ => none
  | c :: cs, p => if c ≠ 0 ∧ isWhitespace c then skipSpaces cs (p + 1) else some p

/-- `parse_key`; the answer is without a key at a closing brace. -/
def parseKey (encoder : Bool) : Nat → List UInt8 → Nat →
    Option (Option (Option Nat × Nat) × List UInt8)
  | 0, _, _ => none
  | n + 1, buf, p => do
    let c ← buf[p]?
    if c = 0 then some (none, buf)
    else if c = '"'.toUInt8 then
      match ← unescape encoder n buf (p + 1) (p + 1) with
      | (none, buf) => some (none, buf)
      | (some q, buf) =>
        let q ← skipSpaces (buf.drop q) q
        if (← buf[q]?) = ':'.toUInt8 then some (some (some (p + 1), q + 1), buf) else some (none, buf)
    else if isWhitespace c ∨ c = ','.toUInt8 then parseKey encoder n buf (p + 1)
    else if c = '}'.toUInt8 then some (some (none, p), buf)
    else if c = '/'.toUInt8 then
      match ← skipComment n buf p with
      | none => some (none, buf)
      | some p => parseKey encoder n buf p
    else some (none, buf)

end Keys

section Values

variable {δ : Type} (d : Doubles δ)

/-- The string from `p` on as `strtoll` and `strtod` see it. -/
def chars (buf : List UInt8) (p : Nat) : Option (List Char) := do
  let k ← strlen buf p
  some (((buf.drop p).take k).map fun b => Char.ofNat b.toNat)

def startsNumber (c : UInt8) : Bool := c = '-'.toUInt8 ∨ ('0'.toUInt8 ≤ c ∧ c ≤ '9'.toUInt8)

def goesOn (c : UInt8) : Bool := c = '.'.toUInt8 ∨ c = 'e'.toUInt8 ∨ c = 'E'.toUInt8

/-- The case of a number in `parse_value`. -/
def parseNumber (m : Memory) (p : Nat) : Option (Option (Value δ Nat × Nat) × Memory) := do
  let cs ← chars m.buf p
  let (int_value, k, erange) := Numerals.strtoll cs
  let m := { m with erange := m.erange || erange }
  if k = 0 ∨ m.erange then some (none, m)
  else if goesOn (← m.buf[p + k]?) then
    let (dbl_value, k, erange) := d.strtod cs
    let m := { m with erange := m.erange || erange }
    if k = 0 ∨ m.erange then some (none, m)
    else some (some (.double int_value dbl_value, p + k), m)
  else some (some (.integer int_value (d.ofInt int_value), p + k), m)

/-- `!strncmp(p, word, k)` for a word of `k` characters. -/
def starts (buf : List UInt8) (p : Nat) : List Char → Option Bool
  | [] => some true
  | c :: cs => do if (← buf[p]?) = c.toUInt8 then starts buf (p + 1) cs else some false

/-- A word at `p`, for a node of the value. -/
def parseWord (word : String) (value : Value δ Nat) (key : Option Nat) (m : Memory) (p : Nat) :
    Option (Option (Option (Node δ Nat) × Nat) × Memory) := do
  if ← starts m.buf p word.toList then
    some (some (some (.mk key value []), p + word.length), m)
  else some (none, m)

variable (encoder : Bool)

mutual

/-- `parse_value`, with the node that it appends to its parent; there is none at a closing bracket. -/
def parseValue : Nat → Option Nat → Memory → Nat →
    Option (Option (Option (Node δ Nat) × Nat) × Memory)
  | 0, _, _, _ => none
  | n + 1, key, m, p => do
    let c ← m.buf[p]?
    if c = 0 then some (none, m)
    else if c = ' '.toUInt8 ∨ c = '\t'.toUInt8 ∨ c = '\n'.toUInt8 ∨ c = '\r'.toUInt8 ∨
        c = ','.toUInt8 then
      parseValue n key m (p + 1)
    else if c = '{'.toUInt8 then
      match ← parseMembers n m (p + 1) with
      | (none, m) => some (none, m)
      | (some (child, p), m) => some (some (some (.mk key .object child), p), m)
    else if c = '['.toUInt8 then
      match ← parseItems n m (p + 1) with
      | (none, m) => some (none, m)
      | (some (child, p), m) => some (some (some (.mk key .array child), p), m)
    else if c = ']'.toUInt8 then some (some (none, p), m)
    else if c = '"'.toUInt8 then
      match ← unescape encoder n m.buf (p + 1) (p + 1) with
      | (none, buf) => some (none, { m with buf })
      | (some q, buf) => some (some (some (.mk key (.string (p + 1)) []), q), { m with buf })
    else if startsNumber c then
      match ← parseNumber d m p with
      | (none, m) => some (none, m)
      | (some (value, p), m) => some (some (some (.mk key value []), p), m)
    else if c = 't'.toUInt8 then parseWord "true" (.bool 1) key m p
    else if c = 'f'.toUInt8 then parseWord "false" (.bool 0) key m p
    else if c = 'n'.toUInt8 then parseWord "null" .null key m p
    else if c = '/'.toUInt8 then
      match ← skipComment n m.buf p with
      | none => some (none, m)
      | some p => parseValue n key m p
    else some (none, m)

/-- The loop over the members of an object. A closing brace right behind a colon ends it too. -/
def parseMembers : Nat → Memory → Nat → Option (Option (List (Node δ Nat) × Nat) × Memory)
  | 0, _, _ => none
  | n + 1, m, p => do
    match ← parseKey encoder n m.buf p with
    | (none, buf) => some (none, { m with buf })
    | (some (newKey, p), buf) =>
      if (← buf[p]?) = '}'.toUInt8 then some (some ([], p + 1), { m with buf })
      else
        match ← parseValue n newKey { m with buf } p with
        | (none, m) => some (none, m)
        | (some (js, p), m) =>
          match ← parseMembers n m p with
          | (none, m) => some (none, m)
          | (some (child, p), m) => some (some (js.toList ++ child, p), m)

/-- The loop over the items of an array. -/
def parseItems : Nat → Memory → Nat → Option (Option (List (Node δ Nat) × Nat) × Memory)
  | 0, _, _ => none
  | n + 1, m, p => do
    match ← parseValue n none m p with
    | (none, m) => some (none, m)
    | (some (js, p), m) =>
      if (← m.buf[p]?) = ']'.toUInt8 then some (some (js.toList, p + 1), m)
      else
        match ← parseItems n m p with
        | (none, m) => some (none, m)
        | (some (child, p), m) => some (some (js.toList ++ child, p), m)

end

/-- `nx_json_parse` of the text at `p`, with turns enough for it. -/
def parse (m : Memory) (p : Nat) : Option (Option (Node δ Nat) × Memory) := do
  match ← parseValue d encoder (2 * m.buf.length + 2) none m p with
  | (none, m) => some (none, m)
  | (some (js, _), m) => some (js, m)

end Values

section Access

variable {δ τ : Type}

/-- The node that is handed out where there is none. -/
def dummy : Node δ τ := .mk none .null []

def Node.key : Node δ τ → Option τ
  | .mk key _ _ => key

def Node.type : Node δ τ → Value δ τ
  | .mk _ type _ => type

def Node.child : Node δ τ → List (Node δ τ)
  | .mk _ _ child => child

/-- `nx_json_get`, over the texts that the keys point to. -/
def get [DecidableEq τ] (json : Node δ τ) (key : τ) : Node δ τ :=
  (json.child.find? fun js => js.key = some key).getD dummy

/-- `nx_json_item` -/
def item (json : Node δ τ) (idx : Nat) : Node δ τ := json.child[idx]?.getD dummy

end Access

end EdgeNode.Nxjson
