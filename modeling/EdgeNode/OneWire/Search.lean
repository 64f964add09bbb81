import Mathlib.Algebra.Group.Nat.Defs
import Mathlib.Tactic.Common
import Mathlib.Data.List.Basic

/-! The search for the ROM codes on a 1-Wire bus, bit by bit over the wired AND of what the
devices send. -/

namespace EdgeNode.OneWire

abbrev RomCode := BitVec 64

def getBitAt (r : RomCode) (n : Nat) : Bool := r.getLsbD n
def setBitAt (r : RomCode) (n : Nat) : RomCode := r ||| BitVec.twoPow 64 n
def clrBitAt (r : RomCode) (n : Nat) : RomCode := r &&& ~~~BitVec.twoPow 64 n

/-- `pROMCode[j]`. -/
def byteAt (r : RomCode) (j : Nat) : BitVec 8 := r.extractLsb' (8 * j) 8

/-- `pROMCode[j] = 0`. -/
def clrByteAt (r : RomCode) (j : Nat) : RomCode := r &&& ~~~((0xFF#64) <<< (8 * j))

/-- The two loops that clear the bits behind `i`: to the end of its byte, and the bytes after. -/
def clrBehind (r : RomCode) (i : Nat) : RomCode :=
  (List.range' (i / 8 + 1) (8 - (i / 8 + 1))).foldl clrByteAt
    ((List.range' (i + 1) ((i / 8 + 1) * 8 - (i + 1))).foldl clrBitAt r)

/-- A pass of the search: the code, the conflict positions with the last one first, whether
something was found, and the devices that still take part. -/
structure Pass where
  pROMCode : RomCode
  pComPos : List Nat
  bFound : Bool
  active : List RomCode

/-- Both bits that `FTE_1WIRE_readBits` reads: each device sends its bit and its complement, and
the bus is low where any of them is. -/
def readBits (active : List RomCode) (i : Nat) : Nat :=
  (if active.all fun d => getBitAt d i then 1 else 0) +
    if active.all fun d => !getBitAt d i then 2 else 0

/-- A conflict: devices with either bit. -/
def conflict (i : Nat) (s : Pass) : Pass :=
  if getBitAt s.pROMCode i = false then
    match s.pComPos with
    | [] => { s with pComPos := [i], bFound := true }
    | top :: rest =>
      if top < i then { s with pComPos := i :: top :: rest, bFound := true }
      else if top = i then
        { s with
          pROMCode := clrBehind (setBitAt s.pROMCode i) i
          pComPos := rest
          bFound := true }
      else { s with bFound := true }
  else s

def allOne (i : Nat) (s : Pass) : Pass :=
  if getBitAt s.pROMCode i = false then
    { s with pROMCode := setBitAt s.pROMCode i, bFound := true }
  else s

def allZero (i : Nat) (s : Pass) : Pass :=
  if getBitAt s.pROMCode i then { s with pROMCode := clrBitAt s.pROMCode i, bFound := true } else s

/-- The devices without the written bit leave until the next reset. -/
def writeBit (i : Nat) (s : Pass) : Pass :=
  { s with active := s.active.filter fun d => getBitAt d i = getBitAt s.pROMCode i }

def bitStep (s : Pass) (i : Nat) : Option Pass :=
  match readBits s.active i with
  | 0 => some (writeBit i (conflict i s))
  | 1 => some (writeBit i (allOne i s))
  | 2 => some (writeBit i (allZero i s))
  | _ => none

/-- The bits from `i` on. -/
def bits (i n : Nat) (s : Pass) : Option Pass := (List.range' i n).foldlM bitStep s

def andBytes (r : RomCode) : BitVec 8 := (List.range 8).foldl (fun d j => d &&& byteAt r j) 0xFF
def orBytes (r : RomCode) : BitVec 8 := (List.range 8).foldl (fun d j => d ||| byteAt r j) 0

/-- The passes of the search from the codes found so far; `none` when the fuel is out. -/
def passes (devices : List RomCode) (nMaxCount : Nat) :
    Nat → RomCode → List Nat → List RomCode → Option (List RomCode)
  | 0, _, _, _ => none
  | fuel + 1, rom, com, found =>
    match bits 0 64 ⟨rom, com, false, devices⟩ with
    | none => some found
    | some s =>
      if s.bFound ∧ andBytes s.pROMCode ≠ 0xFF ∧ orBytes s.pROMCode ≠ 0 then
        passes devices nMaxCount fuel s.pROMCode s.pComPos
          (if found.length < nMaxCount then found ++ [s.pROMCode] else found)
      else some found

def search (devices : List RomCode) (nMaxCount fuel : Nat) : Option (List RomCode) :=
  passes devices nMaxCount fuel 0 [] []

section Bits

@[simp] theorem getBitAt_setBitAt (r : RomCode) (i k : Nat) :
    getBitAt (setBitAt r i) k = (getBitAt r k || (decide (i < 64) && decide (i = k))) := by
  simp [getBitAt, setBitAt, BitVec.getLsbD_or, BitVec.getLsbD_twoPow]

theorem getBitAt_clrBitAt (r : RomCode) (i k : Nat) :
    getBitAt (clrBitAt r i) k = (getBitAt r k && !decide (i = k)) := by
  by_cases hk : k < 64
  · simp only [getBitAt, clrBitAt, BitVec.getLsbD_and, BitVec.getLsbD_not, BitVec.getLsbD_twoPow,
      hk, decide_true, Bool.true_and]
    by_cases hi : i = k
    · simp [hi, hk]
    · simp [hi]
  · simp [getBitAt, BitVec.getLsbD_of_ge _ _ (Nat.le_of_not_lt hk)]

theorem getBitAt_clrByteAt (r : RomCode) (j k : Nat) :
    getBitAt (clrByteAt r j) k = (getBitAt r k && !decide (j = k / 8)) := by
  by_cases hk : k < 64
  · have hFF : ∀ m, (0xFF#64).getLsbD m = decide (m < 8) := by
      intro m
      by_cases hm : m < 64
      · revert m
        decide
      · rw [BitVec.getLsbD_of_ge _ _ (Nat.le_of_not_lt hm)]
        simp
        omega
    simp only [getBitAt, clrByteAt, BitVec.getLsbD_and, BitVec.getLsbD_not,
      BitVec.getLsbD_shiftLeft, hk, decide_true, Bool.true_and, hFF]
    congr 2
    by_cases hj : j = k / 8
    · simp [hj]
      omega
    · simp [hj]
      omega
  · simp [getBitAt, BitVec.getLsbD_of_ge _ _ (Nat.le_of_not_lt hk)]

theorem getBitAt_foldl_clrBitAt (l : List Nat) (r : RomCode) (k : Nat) :
    getBitAt (l.foldl clrBitAt r) k = (getBitAt r k && !decide (k ∈ l)) := by
  induction l generalizing r with
  | nil => simp
  | cons i l ih =>
    rw [List.foldl_cons, ih, getBitAt_clrBitAt]
    by_cases hi : i = k
    · simp [hi]
    · simp [hi, Ne.symm hi]

theorem getBitAt_foldl_clrByteAt (l : List Nat) (r : RomCode) (k : Nat) :
    getBitAt (l.foldl clrByteAt r) k = (getBitAt r k && !decide (k / 8 ∈ l)) := by
  induction l generalizing r with
  | nil => simp
  | cons j l ih =>
    rw [List.foldl_cons, ih, getBitAt_clrByteAt]
    by_cases hj : j = k / 8
    · simp [hj]
    · simp [hj, Ne.symm hj]

theorem getBitAt_of_ge (r : RomCode) {k : Nat} (hk : ¬ k < 64) : getBitAt r k = false :=
  BitVec.getLsbD_of_ge _ _ (Nat.le_of_not_lt hk)

/-- The two loops clear exactly the bits behind `i`. -/
theorem getBitAt_clrBehind (r : RomCode) (i k : Nat) :
    getBitAt (clrBehind r i) k = (getBitAt r k && decide (k ≤ i)) := by
  rw [clrBehind, getBitAt_foldl_clrByteAt, getBitAt_foldl_clrBitAt, Bool.and_assoc]
  by_cases hk : k < 64
  · have hiff : (k ∉ List.range' (i + 1) ((i / 8 + 1) * 8 - (i + 1)) ∧
        k / 8 ∉ List.range' (i / 8 + 1) (8 - (i / 8 + 1))) ↔ k ≤ i := by
      simp only [List.mem_range'_1]
      omega
    congr 1
    rw [← decide_not, ← decide_not, ← Bool.decide_and]
    exact decide_eq_decide.mpr hiff
  · rw [getBitAt_of_ge r hk, Bool.false_and, Bool.false_and]

theorem eq_of_getBitAt {a b : RomCode} (h : ∀ k < 64, getBitAt a k = getBitAt b k) : a = b :=
  BitVec.eq_of_getLsbD_eq h

/-- All bytes of a code have the value of the bytes of `c` when the code is `c`. -/
theorem eq_of_byteAt {a b : RomCode} (h : ∀ j ∈ List.range 8, byteAt a j = byteAt b j) : a = b := by
  apply eq_of_getBitAt
  intro k hk
  have hj := congrArg (fun c : BitVec 8 => c.getLsbD (k % 8))
    (h (k / 8) (List.mem_range.mpr (by omega)))
  have hm : k % 8 < 8 := Nat.mod_lt k (by decide)
  simpa [getBitAt, byteAt, BitVec.getLsbD_extractLsb', hm, Nat.div_add_mod] using hj

theorem foldl_and_eq_iff {ι : Type} (f : ι → BitVec 8) (l : List ι) (a : BitVec 8) :
    l.foldl (fun d j => d &&& f j) a = BitVec.allOnes 8 ↔
      a = BitVec.allOnes 8 ∧ ∀ j ∈ l, f j = BitVec.allOnes 8 := by
  induction l generalizing a with
  | nil => simp
  | cons j l ih =>
    rw [List.foldl_cons, ih, BitVec.and_eq_allOnes_iff, List.forall_mem_cons, and_assoc]

theorem foldl_or_eq_iff {ι : Type} (f : ι → BitVec 8) (l : List ι) (a : BitVec 8) :
    l.foldl (fun d j => d ||| f j) a = 0#8 ↔ a = 0#8 ∧ ∀ j ∈ l, f j = 0#8 := by
  induction l generalizing a with
  | nil => simp
  | cons j l ih => rw [List.foldl_cons, ih, BitVec.or_eq_zero_iff, List.forall_mem_cons, and_assoc]

theorem andBytes_eq_iff (r : RomCode) : andBytes r = 0xFF ↔ r = BitVec.allOnes 64 := by
  constructor
  · intro h
    obtain ⟨-, hb⟩ := (foldl_and_eq_iff (byteAt r) (List.range 8) 0xFF).mp h
    exact eq_of_byteAt fun j hj => (hb j hj).trans (by revert j; decide)
  · rintro rfl
    decide

theorem orBytes_eq_iff (r : RomCode) : orBytes r = 0 ↔ r = 0 := by
  constructor
  · intro h
    obtain ⟨-, hb⟩ := (foldl_or_eq_iff (byteAt r) (List.range 8) 0).mp h
    exact eq_of_byteAt fun j hj => (hb j hj).trans (by revert j; decide)
  · rintro rfl
    decide

end Bits

end EdgeNode.OneWire
