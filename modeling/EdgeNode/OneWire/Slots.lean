import EdgeNode.OneWire.Search

/-! The bit slots on the 1-Wire line and the nesting of the disabled interrupts around them. -/

namespace EdgeNode.OneWire

/-- The interrupts, how often they are disabled; the bits sent on the line and how many were read. -/
structure Line where
  depth : Nat
  sent : List Bool
  nRead : Nat
  deriving DecidableEq

def Line.intDisable (s : Line) : Line := { s with depth := s.depth + 1 }

def Line.intEnable (s : Line) : Line := { s with depth := s.depth - 1 }

def bitAt (b : UInt8) (j : Nat) : Bool := b.toNat.testBit j

section Slots

/-- A slot that sends a bit, with what ends it. -/
def sendSlot (done : Line → Line) (bit : Bool) (s : Line) : Line :=
  let s := s.intDisable
  done { s with sent := s.sent ++ [bit] }

/-- The bits of a byte from the low one on. -/
def sendBits (done : Line → Line) (b : UInt8) (n : Nat) (s : Line) : Line :=
  (List.range n).foldl (fun s j => sendSlot done (bitAt b j) s) s

/-- A slot that reads a bit of what the line shows, into bit `j` of the byte. -/
def readSlot (bus : Nat → Bool) (r : UInt8 × Line) (j : Nat) : UInt8 × Line :=
  let s := r.2.intDisable
  let bit := bus s.nRead
  (if bit then r.1 ||| UInt8.ofNat (2 ^ j) else r.1, { s with nRead := s.nRead + 1 }.intEnable)

def takeBits (bus : Nat → Bool) (n : Nat) (s : Line) : UInt8 × Line :=
  (List.range n).foldl (readSlot bus) (0, s)

end Slots

section Transfers

/-- `FTE_1WIRE_writeBits`. The slots of the remaining bits end with the call that begins them. -/
def Line.writeBits (data : Nat → UInt8) (bit_len : UInt32) (s : Line) : Line :=
  let s := (List.range (bit_len.toNat / 8)).foldl (fun s i => sendBits Line.intEnable (data i) 8 s) s
  sendBits Line.intDisable (data (bit_len.toNat / 8)) (bit_len.toNat % 8) s

def Line.writeByte (data : UInt8) (s : Line) : Line := Line.writeBits (fun _ => data) 8 s

/-- A byte read into its place in the buffer. -/
def takeByte (bus : Nat → Bool) (r : (Nat → UInt8) × Line) (i : Nat) : (Nat → UInt8) × Line :=
  let t := takeBits bus 8 r.2
  (fun k => if k = i then t.1 else r.1 k, t.2)

/-- `FTE_1WIRE_readBits`, which stores a last byte whether bits remain or not. -/
def Line.readBits (bus : Nat → Bool) (data : Nat → UInt8) (bit_len : UInt32) (s : Line) :
    (Nat → UInt8) × Line :=
  let r := (List.range (bit_len.toNat / 8)).foldl (takeByte bus) (data, s)
  let t := takeBits bus (bit_len.toNat % 8) r.2
  (fun k => if k = bit_len.toNat / 8 then t.1 else r.1 k, t.2)

/-- `FTE_1WIRE_read`. -/
def Line.read (bus : Nat → Bool) (pBuff : Nat → UInt8) (nBuffLen : UInt32) (s : Line) :
    (Nat → UInt8) × Line :=
  (List.range nBuffLen.toNat).foldl (takeByte bus) (pBuff, s)

/-- `FTE_1WIRE_write`. -/
def Line.write (pBuff : Nat → UInt8) (len : UInt32) (s : Line) : Line :=
  (List.range len.toNat).foldl (fun s i => sendBits Line.intEnable (pBuff i) 8 s) s

end Transfers

section Search

variable (bus : Nat → Bool)

/-- A bit of a pass of the search: both readings, the step of the code and the bit written back. It
leaves the search where no device answers. -/
def searchBit (r : Pass × Line) (i : Nat) : Except Line (Pass × Line) :=
  let t := Line.readBits bus (fun _ => 0) 2 r.2
  let next (p : Pass) : Except Line (Pass × Line) :=
    .ok (p, Line.writeBits (fun _ => if getBitAt p.pROMCode i then 1 else 0) 1 t.2)
  match (t.1 0).toNat with
  | 0 => next (conflict i r.1)
  | 1 => next (allOne i r.1)
  | 2 => next (allZero i r.1)
  | _ => .error t.2

/-- The passes of `FTE_1WIRE_search` over what the line shows; none when the search has not ended. -/
def linePasses (nMaxCount : Nat) :
    Nat → RomCode → List Nat → List RomCode → Line → Option (List RomCode × Line)
  | 0, _, _, _, _ => none
  | fuel + 1, rom, com, found, s =>
    match (List.range 64).foldlM (searchBit bus) (⟨rom, com, false, []⟩, Line.writeByte 0xF0 s) with
    | .error s => some (found, s)
    | .ok (p, s) =>
      if p.bFound ∧ andBytes p.pROMCode ≠ 0xFF ∧ orBytes p.pROMCode ≠ 0 then
        linePasses nMaxCount fuel p.pROMCode p.pComPos
          (if found.length < nMaxCount then found ++ [p.pROMCode] else found) s
      else some (found, s)

def Line.search (nMaxCount fuel : Nat) (s : Line) : Option (List RomCode × Line) :=
  linePasses bus nMaxCount fuel 0 [] [] s

end Search

section Depths

variable {bus : Nat → Bool} {s : Line}

/-- What a loop adds to the depth in each turn it adds as often as it turns. -/
theorem foldl_depth {ι : Type} {f : Line → ι → Line} {k : Nat}
    (h : ∀ s i, (f s i).depth = s.depth + k) (l : List ι) (s : Line) :
    (l.foldl f s).depth = s.depth + l.length * k := by
  induction l generalizing s with
  | nil => simp
  | cons i l ih =>
    rw [List.foldl_cons, ih, h, List.length_cons, Nat.succ_mul]
    omega

theorem sendBits_enabled (b : UInt8) (n : Nat) (s : Line) :
    (sendBits Line.intEnable b n s).depth = s.depth := by
  have hslot : ∀ (s : Line) (j : Nat),
      (sendSlot Line.intEnable (bitAt b j) s).depth = s.depth + 0 := fun _ _ => rfl
  rw [sendBits, foldl_depth hslot, Nat.mul_zero, Nat.add_zero]

theorem sendBits_disabled (b : UInt8) (n : Nat) (s : Line) :
    (sendBits Line.intDisable b n s).depth = s.depth + n * 2 := by
  have hslot : ∀ (s : Line) (j : Nat),
      (sendSlot Line.intDisable (bitAt b j) s).depth = s.depth + 2 := fun _ _ => rfl
  rw [sendBits, foldl_depth hslot, List.length_range]

/-- Each remaining bit is two levels too many. -/
theorem writeBits_depth (data : Nat → UInt8) (bit_len : UInt32) (s : Line) :
    (Line.writeBits data bit_len s).depth = s.depth + bit_len.toNat % 8 * 2 := by
  have hbyte : ∀ (s : Line) (i : Nat),
      (sendBits Line.intEnable (data i) 8 s).depth = s.depth + 0 := fun s i => sendBits_enabled _ 8 s
  rw [Line.writeBits, sendBits_disabled, foldl_depth hbyte, Nat.mul_zero, Nat.add_zero]

theorem write_depth (pBuff : Nat → UInt8) (len : UInt32) (s : Line) :
    (Line.write pBuff len s).depth = s.depth := by
  have hbyte : ∀ (s : Line) (i : Nat),
      (sendBits Line.intEnable (pBuff i) 8 s).depth = s.depth + 0 := fun s i => sendBits_enabled _ 8 s
  rw [Line.write, foldl_depth hbyte, Nat.mul_zero, Nat.add_zero]

/-- Read slots leave the depth and count the readings. -/
theorem takeBits_line (n : Nat) (s : Line) :
    (takeBits bus n s).2 = { s with nRead := s.nRead + n } := by
  have hfold : ∀ (l : List Nat) (r : UInt8 × Line),
      (l.foldl (readSlot bus) r).2 = { r.2 with nRead := r.2.nRead + l.length } := by
    intro l
    induction l with
    | nil => exact fun r => rfl
    | cons j l ih =>
      intro r
      rw [List.foldl_cons, ih, List.length_cons]
      simp only [readSlot, Line.intDisable, Line.intEnable, Nat.add_sub_cancel, Nat.add_assoc,
        Nat.add_comm 1]
  rw [takeBits, hfold, List.length_range]

theorem takeByte_depth (l : List Nat) (r : (Nat → UInt8) × Line) :
    (l.foldl (takeByte bus) r).2.depth = r.2.depth := by
  induction l generalizing r with
  | nil => rfl
  | cons i l ih => rw [List.foldl_cons, ih, takeByte, takeBits_line]

theorem readBits_depth (data : Nat → UInt8) (bit_len : UInt32) (s : Line) :
    (Line.readBits bus data bit_len s).2.depth = s.depth := by
  simp only [Line.readBits, takeBits_line, takeByte_depth]

theorem read_depth (pBuff : Nat → UInt8) (nBuffLen : UInt32) (s : Line) :
    (Line.read bus pBuff nBuffLen s).2.depth = s.depth := takeByte_depth _ _

end Depths

section SearchDepth

variable {bus : Nat → Bool} {nMaxCount : Nat}

/-- The line a pass of the search leaves. -/
def lineOf : Except Line (Pass × Line) → Line
  | .ok r => r.2
  | .error s => s

/-- No device answers the next two readings. -/
def Silent (bus : Nat → Bool) (s : Line) : Prop := bus s.nRead = true ∧ bus (s.nRead + 1) = true

theorem readBits_pair (s : Line) : ((Line.readBits bus (fun _ => 0) 2 s).1 0).toNat =
    (if bus s.nRead then 1 else 0) + if bus (s.nRead + 1) then 2 else 0 := by
  have hbyte : (Line.readBits bus (fun _ => 0) 2 s).1 0 =
      ((0 : UInt8) ||| if bus s.nRead then 1 else 0) ||| if bus (s.nRead + 1) then 2 else 0 := by
    cases h0 : bus s.nRead <;> cases h1 : bus (s.nRead + 1) <;>
      simp [Line.readBits, takeBits, readSlot, List.range_succ, Line.intDisable, Line.intEnable, h0, h1]
  rw [hbyte]
  cases bus s.nRead <;> cases bus (s.nRead + 1) <;> rfl

/-- A bit of the search is two levels, unless no device answers. -/
theorem searchBit_spec (r : Pass × Line) (i : Nat) :
    (Silent bus r.2 ∧ ∃ s, searchBit bus r i = .error s ∧ s.depth = r.2.depth) ∨
      (¬ Silent bus r.2 ∧ ∃ t, searchBit bus r i = .ok t ∧ t.2.depth = r.2.depth + 2) := by
  have hread := @readBits_pair bus r.2
  have hline := @readBits_depth bus (fun _ => 0) 2 r.2
  have hwrite : ∀ data s, (Line.writeBits data 1 s).depth = s.depth + 2 :=
    fun data s => writeBits_depth data 1 s
  rw [searchBit, hread]
  cases h0 : bus r.2.nRead <;> cases h1 : bus (r.2.nRead + 1)
  · right
    refine ⟨fun h => absurd (h0.symm.trans h.1) (by decide), _, rfl, ?_⟩
    rw [hwrite, hline]
  · right
    refine ⟨fun h => absurd (h0.symm.trans h.1) (by decide), _, rfl, ?_⟩
    rw [hwrite, hline]
  · right
    refine ⟨fun h => absurd (h1.symm.trans h.2) (by decide), _, rfl, ?_⟩
    rw [hwrite, hline]
  · left
    exact ⟨⟨h0, h1⟩, _, rfl, hline⟩

/-- The bits of a pass never lower the depth. -/
theorem searchBits_depth_le (l : List Nat) (r : Pass × Line) :
    r.2.depth ≤ (lineOf (l.foldlM (searchBit bus) r)).depth := by
  induction l generalizing r with
  | nil => exact Nat.le_refl _
  | cons i l ih =>
    rw [List.foldlM_cons]
    obtain ⟨-, s, hs, hdepth⟩ | ⟨-, t, ht, hdepth⟩ := @searchBit_spec bus r i
    · rw [hs]
      exact Nat.le_of_eq hdepth.symm
    · rw [ht]
      have hle := ih t
      change _ ≤ (lineOf (l.foldlM (searchBit bus) t)).depth
      omega

theorem searchBits_depth_lt (i : Nat) (l : List Nat) {r : Pass × Line} (h : ¬ Silent bus r.2) :
    r.2.depth < (lineOf ((i :: l).foldlM (searchBit bus) r)).depth := by
  obtain ⟨hs, -⟩ | ⟨-, t, ht, hdepth⟩ := @searchBit_spec bus r i
  · exact absurd hs h
  · rw [List.foldlM_cons, ht]
    have hle := @searchBits_depth_le bus l t
    change _ < (lineOf (l.foldlM (searchBit bus) t)).depth
    omega

theorem foldl_nRead {ι : Type} {f : Line → ι → Line} (h : ∀ s i, (f s i).nRead = s.nRead)
    (l : List ι) (s : Line) : (l.foldl f s).nRead = s.nRead := by
  induction l generalizing s with
  | nil => rfl
  | cons i l ih => rw [List.foldl_cons, ih, h]

/-- Sent bits take no reading. -/
theorem writeBits_nRead (data : Nat → UInt8) (bit_len : UInt32) (s : Line) :
    (Line.writeBits data bit_len s).nRead = s.nRead := by
  have hdisable : ∀ (b : UInt8) (s : Line) (j : Nat),
      (sendSlot Line.intDisable (bitAt b j) s).nRead = s.nRead := fun _ _ _ => rfl
  have henable : ∀ (b : UInt8) (s : Line) (j : Nat),
      (sendSlot Line.intEnable (bitAt b j) s).nRead = s.nRead := fun _ _ _ => rfl
  have hbyte : ∀ (s : Line) (i : Nat),
      (sendBits Line.intEnable (data i) 8 s).nRead = s.nRead := by
    intro s i
    rw [sendBits, foldl_nRead (henable _)]
  rw [Line.writeBits, sendBits, foldl_nRead (hdisable _), foldl_nRead hbyte]

theorem writeByte_line (data : UInt8) (s : Line) :
    (Line.writeByte data s).depth = s.depth ∧ (Line.writeByte data s).nRead = s.nRead := by
  have height : (8 : UInt32).toNat % 8 * 2 = 0 := rfl
  constructor
  · rw [Line.writeByte, writeBits_depth, height, Nat.add_zero]
  · exact writeBits_nRead _ 8 s

theorem linePasses_depth_le {fuel : Nat} {rom : RomCode} {com : List Nat} {found codes : List RomCode}
    {s t : Line} (h : linePasses bus nMaxCount fuel rom com found s = some (codes, t)) :
    s.depth ≤ t.depth := by
  induction fuel generalizing rom com found s with
  | zero => cases h
  | succ fuel ih =>
    rw [linePasses] at h
    have hle := @searchBits_depth_le bus (List.range 64)
      (⟨rom, com, false, []⟩, Line.writeByte 0xF0 s)
    rw [(writeByte_line 0xF0 s).1] at hle
    split at h
    next u hu =>
      cases h
      rwa [hu] at hle
    next p u hu =>
      rw [hu] at hle
      split at h
      next => exact Nat.le_trans hle (ih h)
      next =>
        cases h
        exact hle

/-- The search comes back at the depth of its call if no device answers its first reading. -/
theorem search_balanced_iff (s : Line) :
    (∃ fuel codes t, Line.search bus nMaxCount fuel s = some (codes, t) ∧ t.depth = s.depth) ↔
      Silent bus s := by
  have hcall := writeByte_line 0xF0 s
  have hfirst : Silent bus (Line.writeByte 0xF0 s) ↔ Silent bus s := by
    rw [Silent, Silent, hcall.2]
  have hrange : List.range 64 = 0 :: List.range' 1 63 := by decide
  constructor
  · rintro ⟨fuel, codes, t, hrun, hdepth⟩
    by_contra hno
    cases fuel with
    | zero => cases hrun
    | succ fuel =>
      rw [Line.search, linePasses, hrange] at hrun
      have hlt := searchBits_depth_lt 0 (List.range' 1 63)
        (r := (⟨0, [], false, []⟩, Line.writeByte 0xF0 s)) (mt hfirst.mp hno)
      rw [hcall.1] at hlt
      split at hrun
      next u hu =>
        cases hrun
        rw [hu] at hlt
        exact absurd hdepth (Nat.ne_of_gt hlt)
      next p u hu =>
        rw [hu] at hlt
        split at hrun
        next => exact absurd hdepth (Nat.ne_of_gt (Nat.lt_of_lt_of_le hlt (linePasses_depth_le hrun)))
        next =>
          cases hrun
          exact absurd hdepth (Nat.ne_of_gt hlt)
  · intro h
    obtain ⟨-, t, ht, hdepth⟩ | ⟨hno, -⟩ := @searchBit_spec bus
      (⟨0, [], false, []⟩, Line.writeByte 0xF0 s) 0
    · refine ⟨1, [], t, ?_, hdepth.trans hcall.1⟩
      rw [Line.search, linePasses, hrange, List.foldlM_cons, ht]
      rfl
    · exact absurd (hfirst.mpr h) hno

end SearchDepth

section Balance

/-- Writing bits is balanced for whole bytes only, and a search where no device answers; reading, and
the transfers of bytes, always are. -/
theorem transfers_balanced_iff (bus : Nat → Bool) (nMaxCount : Nat) (pBuff : Nat → UInt8)
    (len : UInt32) (s : Line) :
    ((Line.writeBits pBuff len s).depth = s.depth ↔ len.toNat % 8 = 0) ∧
    ((∃ fuel codes t, Line.search bus nMaxCount fuel s = some (codes, t) ∧ t.depth = s.depth) ↔
      Silent bus s) ∧
    (Line.readBits bus pBuff len s).2.depth = s.depth ∧
    (Line.read bus pBuff len s).2.depth = s.depth ∧
    (Line.write pBuff len s).depth = s.depth := by
  refine ⟨?_, search_balanced_iff s, readBits_depth pBuff len s, read_depth pBuff len s,
    write_depth pBuff len s⟩
  rw [writeBits_depth]
  omega

/-- One bit leaves the interrupts disabled. -/
theorem one_bit_unbalanced :
    ¬ ∀ (data : Nat → UInt8) (bit_len : UInt32) (s : Line),
      (Line.writeBits data bit_len s).depth = s.depth := by
  intro h
  have hone := h (fun _ => 1) 1 ⟨0, [], 0⟩
  revert hone
  decide

end Balance

end EdgeNode.OneWire
