import EdgeNode.Modbus.Registers

/-! The statistics registers: two for each counter of the slave, its high and its low part. -/

namespace EdgeNode.Modbus

section Definitions

/-- Two ways to make an address of a group's base and an index: their sum, as the values of the
bases suggest, or with the base for the number of the hundred, as the dispatch compares it. -/
inductive Numbering where
  | added
  | hundreds
  deriving DecidableEq

def Numbering.address (n : Numbering) (base index : Nat) : UInt16 :=
  match n with
  | added => UInt16.ofNat (base + index)
  | hundreds => UInt16.ofNat (base * 100 + index)

/-- `FTE_MODBUS_REG_RX_COUNT_LO` to `FTE_MODBUS_REG_ERROR_COUNT_HI`. -/
def Counter.index (c : Counter) (low : Bool) : Nat :=
  (match c with
    | rx => 1
    | tx => 3
    | error => 5) + if low then 0 else 1

def Numbering.counter (n : Numbering) (c : Counter) (low : Bool) : UInt16 :=
  n.address regStatisticsBase (c.index low)

inductive Numbering.Mapped (n : Numbering) : UInt16 → Prop where
  | sensor {index : Nat} (hl : 1 ≤ index) (hu : index ≤ 14) :
    Mapped n (n.address regSensorBase index)
  | reset : Mapped n (n.address regSystemBase 1)
  | statistics (c : Counter) (low : Bool) : Mapped n (n.counter c low)

variable {ω υ η : Type} (fw : Firmware ω υ η)

def SameCounters (d d' : Device ω η) : Prop := ∀ c : Counter, c.get d' = c.get d

/-- What the statistics registers are to do for the counters of one state. -/
structure CountersServed (n : Numbering) (d : Device ω η) : Prop where
  determined : ∀ c, ∃ usHi usLo,
    regRead fw (n.counter c false) d = ((retOk, usHi), d) ∧
    regRead fw (n.counter c true) d = ((retOk, usLo), d) ∧
    (c.get d).toNat = usHi.toNat * 10000 + usLo.toNat
  reset : ∀ c low, (regWrite fw (n.counter c low) 0 d).1 = retOk ∧
    ∀ c' : Counter, c'.get (regWrite fw (n.counter c low) 0 d).2 = if c' = c then 0 else c'.get d
  otherValue : ∀ c low usValue, usValue ≠ 0 → (regWrite fw (n.counter c low) usValue d).1 ≠ retOk ∧
    SameCounters d (regWrite fw (n.counter c low) usValue d).2
  otherRegister : ∀ usReg usValue, (∀ c low, usReg ≠ n.counter c low) →
    SameCounters d (regRead fw usReg d).2 ∧ SameCounters d (regWrite fw usReg usValue d).2
  unmapped : ∀ usReg usValue, ¬n.Mapped usReg →
    (regRead fw usReg d).1.1 ≠ retOk ∧ (regWrite fw usReg usValue d).1 ≠ retOk

end Definitions

variable {ω υ η : Type} (fw : Firmware ω υ η)

@[simp] theorem Counter.get_clear (c c' : Counter) (d : Device ω η) :
    c'.get (c.clear d) = if c' = c then 0 else c'.get d := by
  cases c <;> cases c' <;> rfl

@[simp] theorem statisticsRegisters_index (c : Counter) (low : Bool) :
    statisticsRegisters[c.index low]? = some (some (c, low)) := by
  cases c <;> cases low <;> rfl

theorem index_of_statisticsRegisters {i : Nat} {r : Counter × Bool}
    (h : statisticsRegisters[i]? = some (some r)) : i = r.1.index r.2 := by
  match i, h with
  | 1, h | 2, h | 3, h | 4, h | 5, h | 6, h =>
    cases h
    rfl

theorem index_of_sensorRegisters {i : Nat} {ucClass : UInt32}
    (h : sensorRegisters[i]? = some (some ucClass)) : 1 ≤ i ∧ i ≤ 14 := by
  obtain ⟨hlen, -⟩ := List.getElem?_eq_some_iff.mp h
  have hi : i < 15 := hlen
  refine ⟨Nat.pos_of_ne_zero ?_, by omega⟩
  rintro rfl
  cases h

theorem eq_address (usReg : UInt16) {base : Nat} (h : usReg.toNat / 100 = base) :
    usReg = Numbering.hundreds.address base (usReg.toNat % 100) := by
  subst h
  rw [Numbering.address, Nat.mul_comm, Nat.div_add_mod, UInt16.ofNat_toNat]

theorem Counter.index_lt (c : Counter) (low : Bool) : c.index low < 100 := by
  cases c <;> cases low <;> decide

theorem address_toNat {base index : Nat} (h : base * 100 + index < 65536) :
    (Numbering.hundreds.address base index).toNat = base * 100 + index := by
  rw [Numbering.address, UInt16.toNat_ofNat']
  exact Nat.mod_eq_of_lt h

theorem counter_toNat (c : Counter) (low : Bool) :
    (Numbering.hundreds.counter c low).toNat = 20000 + c.index low := by
  have hc := c.index_lt low
  exact address_toNat (by simp only [regStatisticsBase]; omega)

section Dispatch

variable {fw} (c : Counter) (low : Bool) (d : Device ω η)

theorem counter_div : (Numbering.hundreds.counter c low).toNat / 100 = regStatisticsBase := by
  have hc := c.index_lt low
  rw [counter_toNat, regStatisticsBase]
  omega

theorem counter_mod : (Numbering.hundreds.counter c low).toNat % 100 = c.index low := by
  have hc := c.index_lt low
  rw [counter_toNat]
  omega

theorem regRead_counter :
    regRead fw (Numbering.hundreds.counter c low) d = (readCounter (c, low) d, d) := by
  simp [regRead, counter_div, counter_mod, regStatisticsBase, regSystemBase, regSensorBase]

theorem regWrite_counter (usValue : UInt16) :
    regWrite fw (Numbering.hundreds.counter c low) usValue d = writeCounter (c, low) usValue d := by
  simp [regWrite, counter_div, counter_mod, regStatisticsBase, regSystemBase, regSensorBase]

end Dispatch

theorem readReset_sameCounters (d : Device ω η) : SameCounters d (readReset fw d).2 := by
  rintro (_ | _ | _) <;> rfl

theorem writeReset_sameCounters (usValue : UInt16) (d : Device ω η) :
    SameCounters d (writeReset fw usValue d).2 := by
  unfold writeReset
  split <;> rintro (_ | _ | _) <;> rfl

theorem regRead_cases (usReg : UInt16) (d : Device ω η) :
    regRead fw usReg d = ((retModbusInvalidAddress, 0), d) ∨
      (usReg = Numbering.hundreds.address regSystemBase 1 ∧
        regRead fw usReg d = readReset fw d) ∨
      (∃ index ucClass, (1 ≤ index ∧ index ≤ 14) ∧
        usReg = Numbering.hundreds.address regSensorBase index ∧
        regRead fw usReg d = (readSensorCount fw ucClass d, d)) ∨
      ∃ c low, usReg = Numbering.hundreds.counter c low ∧
        regRead fw usReg d = (readCounter (c, low) d, d) := by
  unfold regRead
  dsimp only
  split
  · next hg =>
    split
    · next hi => exact .inr (.inl ⟨hi ▸ eq_address usReg hg, rfl⟩)
    · exact .inl rfl
  split
  · next hg =>
    split
    · next ucClass hi =>
      exact .inr (.inr (.inl ⟨_, ucClass, index_of_sensorRegisters hi, eq_address usReg hg, rfl⟩))
    · exact .inl rfl
  split
  · next hg =>
    split
    · next r hi =>
      have hu := eq_address usReg hg
      rw [index_of_statisticsRegisters hi] at hu
      exact .inr (.inr (.inr ⟨r.1, r.2, hu, rfl⟩))
    · exact .inl rfl
  · exact .inl rfl

theorem regWrite_cases (usReg usValue : UInt16) (d : Device ω η) :
    regWrite fw usReg usValue d = (retModbusInvalidAddress, d) ∨
      (usReg = Numbering.hundreds.address regSystemBase 1 ∧
        regWrite fw usReg usValue d = writeReset fw usValue d) ∨
      ∃ c low, usReg = Numbering.hundreds.counter c low ∧
        regWrite fw usReg usValue d = writeCounter (c, low) usValue d := by
  unfold regWrite
  dsimp only
  split
  · exact .inl rfl
  split
  · next hg =>
    split
    · next hi => exact .inr (.inl ⟨hi ▸ eq_address usReg hg, rfl⟩)
    · exact .inl rfl
  split
  · next hg =>
    split
    · next r hi =>
      have hu := eq_address usReg hg
      rw [index_of_statisticsRegisters hi] at hu
      exact .inr (.inr ⟨r.1, r.2, hu, rfl⟩)
    · exact .inl rfl
  · exact .inl rfl

theorem regRead_sameCounters (usReg : UInt16) (d : Device ω η) :
    SameCounters d (regRead fw usReg d).2 := by
  obtain h | ⟨-, h⟩ | ⟨_, _, -, -, h⟩ | ⟨_, _, -, h⟩ := regRead_cases fw usReg d <;> rw [h]
  · exact fun _ => rfl
  · exact readReset_sameCounters fw d
  · exact fun _ => rfl
  · exact fun _ => rfl

theorem regWrite_sameCounters {usReg usValue : UInt16} (d : Device ω η)
    (hne : ∀ c low, usReg ≠ Numbering.hundreds.counter c low) :
    SameCounters d (regWrite fw usReg usValue d).2 := by
  obtain h | ⟨-, h⟩ | ⟨c, low, hu, -⟩ := regWrite_cases fw usReg usValue d
  · rw [h]
    exact fun _ => rfl
  · rw [h]
    exact writeReset_sameCounters fw usValue d
  · exact absurd hu (hne c low)

theorem unmapped_refused {usReg : UInt16} (hm : ¬Numbering.hundreds.Mapped usReg)
    (usValue : UInt16) (d : Device ω η) :
    (regRead fw usReg d).1.1 ≠ retOk ∧ (regWrite fw usReg usValue d).1 ≠ retOk := by
  constructor
  · obtain h | ⟨hu, -⟩ | ⟨_, _, hi, hu, -⟩ | ⟨c, low, hu, -⟩ := regRead_cases fw usReg d
    · rw [h]
      exact (by decide : retModbusInvalidAddress ≠ retOk)
    · exact absurd (hu ▸ .reset) hm
    · exact absurd (hu ▸ .sensor hi.1 hi.2) hm
    · exact absurd (hu ▸ .statistics c low) hm
  · obtain h | ⟨hu, -⟩ | ⟨c, low, hu, -⟩ := regWrite_cases fw usReg usValue d
    · rw [h]
      exact (by decide : retModbusInvalidAddress ≠ retOk)
    · exact absurd (hu ▸ .reset) hm
    · exact absurd (hu ▸ .statistics c low) hm

/-- The high part keeps 16 bits of the quotient. -/
theorem halves_determine_iff (ul : UInt32) :
    ul.toNat = (UInt16.ofNat (ul.toNat / 10000)).toNat * 10000 +
        (UInt16.ofNat (ul.toNat % 10000)).toNat ↔ ul.toNat < 655360000 := by
  have hlo : ul.toNat % 10000 % 65536 = ul.toNat % 10000 :=
    Nat.mod_eq_of_lt (by omega)
  rw [UInt16.toNat_ofNat', UInt16.toNat_ofNat', hlo]
  omega

theorem counter_added_refused (c : Counter) (low : Bool) (d : Device ω η) :
    regRead fw (Numbering.added.counter c low) d = ((retModbusInvalidAddress, 0), d) := by
  cases c <;> cases low <;> rfl

/-- The two halves give the counter back as long as the quotient by 10000 fits in 16 bits, under
the addresses of the dispatch. -/
theorem countersServed_iff (n : Numbering) (d : Device ω η) :
    CountersServed fw n d ↔ n = .hundreds ∧ ∀ c : Counter, (c.get d).toNat < 655360000 := by
  constructor
  · intro hs
    cases n with
    | added =>
      obtain ⟨usHi, usLo, hhi, -, -⟩ := hs.determined .rx
      rw [counter_added_refused] at hhi
      cases hhi
    | hundreds =>
      refine ⟨rfl, fun c => ?_⟩
      obtain ⟨usHi, usLo, hhi, hlo, he⟩ := hs.determined c
      rw [regRead_counter] at hhi hlo
      cases hhi
      cases hlo
      exact (halves_determine_iff _).mp he
  · rintro ⟨rfl, hd⟩
    refine
      { determined := fun c => ⟨_, _, regRead_counter c false d, regRead_counter c true d,
          (halves_determine_iff _).mpr (hd c)⟩
        reset := fun c low => ?_
        otherValue := fun c low usValue hv => ?_
        otherRegister := fun usReg usValue hne =>
          ⟨regRead_sameCounters fw usReg d, regWrite_sameCounters fw d hne⟩
        unmapped := fun usReg usValue hm => unmapped_refused fw hm usValue d }
    · rw [regWrite_counter]
      exact ⟨rfl, fun c' => Counter.get_clear c c' d⟩
    · rw [regWrite_counter, writeCounter, if_pos hv]
      exact ⟨(by decide : retModbusInvalidData ≠ retOk), fun _ => rfl⟩

theorem counter_wraps : ¬CountersServed bareFirmware .hundreds
    { bareDevice with ulRxPkt := 655360000 } := by
  intro hs
  obtain ⟨usHi, usLo, hhi, hlo, he⟩ := hs.determined .rx
  rw [regRead_counter] at hhi hlo
  cases hhi
  cases hlo
  exact absurd ((halves_determine_iff _).mp he) (by decide)

end EdgeNode.Modbus
