import EdgeNode.Modbus.Replies

/-! Ranges of registers: the addresses a read goes through, and what the tables have there. -/

namespace EdgeNode.Modbus

open BufferAccess

variable {ω υ η : Type} (fw : Firmware ω υ η)

section Definitions

def inputRegister (d : Device ω η) (usAddress : UInt16) : Option UInt16 :=
  (objGetAt fw (groupClass usAddress) classMask (usAddress.toNat % 1000) d).map
    fun p => fw.toINT16 p.2

/-- What the read of a range of a table is to come to. -/
structure RangeChecked (table : UInt16 → Option UInt16) (usAddress : UInt16) (k : Nat)
    (r : Ret × List UInt16) : Prop where
  refused : 65536 < usAddress.toNat + k ∨ (∃ x ∈ addresses usAddress k, table x = none) →
    r.1 = retModbusInvalidAddress
  values : ∀ values, usAddress.toNat + k ≤ 65536 →
    (addresses usAddress k).map table = values.map some → r = (retOk, values)

/-- The response to a read: the values in network order, or the exception with its code. -/
def Delivered (mem : Nat → UInt8) (k : Nat) (r : Ret × List UInt16)
    (run : Run (Device ω η) Reply) : Prop :=
  if r.1 = retOk then run.val = (retOk, some (2 + 2 * k)) ∧
    Holds run.writes (mem 0 :: UInt8.ofNat (2 * k) :: r.2.flatMap htons)
  else run.val = (retOk, some 2) ∧ Holds run.writes [mem 0 ||| 0x80, exceptCode r.1]

/-- A read request the slave takes up: the quantity is allowed, and there is room and memory. -/
structure ReadRequest (d : Device ω η) (mem : Nat → UInt8) (m : Nat) (usAddress : UInt16) (k : Nat) :
    Prop where
  address : field mem 1 = usAddress
  quantity : (field mem 3).toNat = k
  allowed : 1 ≤ k ∧ k ≤ maxHoldingRegisters
  room : 2 + 2 * k ≤ m
  memory : (fw.allocZero (2 * k) d.kernel).1 = true

/-- Both tables check the range, a read stores nothing but the values, and the response carries what
the tables say. -/
structure ReadsChecked (d : Device ω η) (usAddress : UInt16) (k : Nat) : Prop where
  holding : RangeChecked (holdingRegister fw d) usAddress k (readHoldingRegisters fw usAddress k d).1
  stores : (readHoldingRegisters fw usAddress k d).2.nullStores = d.nullStores
  input : RangeChecked (inputRegister fw d) usAddress k (readInputRegisters fw usAddress d k)
  holdingReply : ∀ mem m, ReadRequest fw d mem m usAddress k → mem 0 = 3 →
    Delivered mem k (readHoldingRegisters fw usAddress k d).1 (process fw (generalModel fw) 5 m mem d)
  inputReply : ∀ mem m, ReadRequest fw d mem m usAddress k → mem 0 = 4 →
    Delivered mem k (readInputRegisters fw usAddress d k) (process fw (generalModel fw) 5 m mem d)

/-- Every register of the range is there, and none of them is an output. -/
def HoldingKept (d : Device ω η) (usAddress : UInt16) (k : Nat) : Prop :=
  usAddress.toNat + k ≤ 65536 ∧
    ∀ x ∈ addresses usAddress k, (holdingRegister fw d x).isSome ∧ groupClass x ≠ classDO

/-- The range ends at the last address, or a register it goes through is missing. -/
def InputKept (d : Device ω η) (usAddress : UInt16) (k : Nat) : Prop :=
  usAddress.toNat + k ≤ 65536 ∨ ∃ x ∈ addresses usAddress k, inputRegister fw d x = none

end Definitions

theorem readInputRegister_eq (usAddress : UInt16) (d : Device ω η) :
    readInputRegister fw usAddress d =
      match inputRegister fw d usAddress with
      | some usValue => (retOk, usValue)
      | none => (retModbusInvalidAddress, 0) := by
  rw [readInputRegister, inputRegister]
  cases objGetAt fw (groupClass usAddress) classMask (usAddress.toNat % 1000) d <;> rfl

theorem readInputRegisters_missing {usAddress : UInt16} {k : Nat} {d : Device ω η}
    (h : ∃ x ∈ addresses usAddress k, inputRegister fw d x = none) :
    (readInputRegisters fw usAddress d k).1 = retModbusInvalidAddress := by
  induction k generalizing usAddress with
  | zero => simp [addresses] at h
  | succ k ih =>
    rw [readInputRegisters, readInputRegister_eq]
    cases hx : inputRegister fw d usAddress with
    | none => rfl
    | some usValue =>
      obtain ⟨x, hm, hn⟩ := h
      obtain rfl | hm := List.mem_cons.mp hm
      · rw [hx] at hn
        cases hn
      · exact ih ⟨x, hm, hn⟩

theorem readInputRegisters_present {usAddress : UInt16} {k : Nat} {d : Device ω η}
    {values : List UInt16}
    (h : (addresses usAddress k).map (inputRegister fw d) = values.map some) :
    readInputRegisters fw usAddress d k = (retOk, values) := by
  induction k generalizing usAddress values with
  | zero =>
    cases values with
    | nil => rfl
    | cons => simp [addresses] at h
  | succ k ih =>
    cases values with
    | nil => simp [addresses] at h
    | cons usValue values =>
      obtain ⟨hx, hs⟩ := List.cons.inj h
      rw [readInputRegisters, readInputRegister_eq, hx]
      dsimp only
      rw [if_neg (by simp), ih hs]

theorem exists_values {table : UInt16 → Option UInt16} {xs : List UInt16}
    (h : ¬∃ x ∈ xs, table x = none) : ∃ values : List UInt16, xs.map table = values.map some := by
  refine ⟨xs.map fun x => (table x).getD 0, ?_⟩
  rw [List.map_map]
  refine List.map_congr_left fun x hx => ?_
  cases ht : table x with
  | none => exact absurd ⟨x, hx, ht⟩ h
  | some usValue => simp [ht]

/-- A register that is no output is read as it is. -/
theorem holdingSeen_eq {d : Device ω η} {x : UInt16} (h : (holdingRegister fw d x).isSome)
    (hc : groupClass x ≠ classDO) : holdingRegister fw d x = some (holdingSeen fw d x) := by
  obtain ⟨usValue, hx⟩ := Option.isSome_iff_exists.mp h
  have h0 : x.toNat < 1000 := by
    by_contra h0
    rw [holdingRegister, if_neg h0, if_neg hc] at hx
    cases hx
  rw [holdingSeen, if_pos h0, hx]
  rfl

theorem rangeChecked_holding_iff (usAddress : UInt16) (k : Nat) (d : Device ω η) :
    (RangeChecked (holdingRegister fw d) usAddress k (readHoldingRegisters fw usAddress k d).1 ∧
      (readHoldingRegisters fw usAddress k d).2.nullStores = d.nullStores) ↔
        HoldingKept fw d usAddress k := by
  have hread := congrArg Prod.fst (readHoldingRegisters_eq fw usAddress k d)
  constructor
  · rintro ⟨hc, hstores⟩
    have hin : ¬(65536 < usAddress.toNat + k ∨
        ∃ x ∈ addresses usAddress k, holdingRegister fw d x = none) := by
      intro hout
      have hr := hc.refused hout
      rw [hread] at hr
      exact absurd hr (by decide : retOk ≠ retModbusInvalidAddress)
    obtain ⟨hend, hall⟩ := not_or.mp hin
    have hsome : ∀ x ∈ addresses usAddress k, (holdingRegister fw d x).isSome := fun x hx =>
      Option.isSome_iff_ne_none.mpr fun hn => hall ⟨x, hx, hn⟩
    have hout := (readHoldingRegisters_stores_iff fw hsome).mp hstores
    exact ⟨by omega, fun x hx => ⟨hsome x hx, hout x hx⟩⟩
  · rintro ⟨hend, hall⟩
    refine ⟨⟨?_, fun values _ hv => ?_⟩,
      (readHoldingRegisters_stores_iff fw fun x hx => (hall x hx).1).mpr fun x hx => (hall x hx).2⟩
    · rintro (hout | ⟨x, hx, hn⟩)
      · omega
      · exact absurd hn (Option.isSome_iff_ne_none.mp (hall x hx).1)
    · have hsome : ((addresses usAddress k).map (holdingSeen fw d)).map some = values.map some := by
        rw [← hv, List.map_map]
        exact List.map_congr_left fun x hx => (holdingSeen_eq fw (hall x hx).1 (hall x hx).2).symm
      rw [hread, List.map_injective_iff.mpr (fun _ _ => Option.some.inj) hsome]

theorem rangeChecked_input_iff (usAddress : UInt16) (k : Nat) (d : Device ω η) :
    RangeChecked (inputRegister fw d) usAddress k (readInputRegisters fw usAddress d k) ↔
      InputKept fw d usAddress k := by
  constructor
  · intro hc
    by_contra hout
    obtain ⟨hend, hall⟩ := not_or.mp hout
    obtain ⟨values, hv⟩ := exists_values hall
    have hr := hc.refused (.inl (by omega))
    rw [readInputRegisters_present fw hv] at hr
    exact absurd hr (by decide : retOk ≠ retModbusInvalidAddress)
  · intro hk
    refine ⟨fun hout => ?_, fun values _ hv => readInputRegisters_present fw hv⟩
    obtain hend | hmissing := hk
    · obtain hover | hmissing := hout
      · omega
      · exact readInputRegisters_missing fw hmissing
    · exact readInputRegisters_missing fw hmissing

section Reply

variable {fw} {d : Device ω η} {mem : Nat → UInt8} {m k : Nat} {usAddress : UInt16}

theorem readHoldingRegisters_afterAlloc (ulSize : Nat) :
    (readHoldingRegisters fw usAddress k (afterAlloc fw ulSize d)).1 =
      (readHoldingRegisters fw usAddress k d).1 := by
  rw [readHoldingRegisters_eq, readHoldingRegisters_eq]
  rfl

theorem readInputRegisters_congr {d' : Device ω η} (h : d'.xObjList = d.xObjList) :
    readInputRegisters fw usAddress d' k = readInputRegisters fw usAddress d k := by
  have hone (x : UInt16) : readInputRegister fw x d' = readInputRegister fw x d := by
    simp only [readInputRegister, objGetAt, h]
  induction k generalizing usAddress with
  | zero => rfl
  | succ k ih => rw [readInputRegisters, readInputRegisters, hone, ih]

theorem readRegisters_delivered
    (f : UInt16 → Nat → Device ω η → (Ret × List UInt16) × Device ω η) {r : Ret × List UInt16}
    (hreq : ReadRequest fw d mem m usAddress k)
    (hr : (f usAddress k (afterAlloc fw (2 * k) d)).1 = r) (hlen : r.2.length = k)
    (hcode : r.1 ≠ retOk → isException r.1 = true)
    (hp : processFunction fw (generalModel fw) 5 m (mem 0) =
      processReadRegisters fw 5 m (some f)) :
    Delivered mem k r (process fw (generalModel fw) 5 m mem d) := by
  obtain ⟨ha, hq, hallowed, hroom, hmem⟩ := hreq
  have hdata : (r.2.take k).flatMap htons = r.2.flatMap htons := by
    rw [List.take_of_length_le (Nat.le_of_eq hlen)]
  change Yields (process fw (generalModel fw) 5 m)
    (fun v t ws => Delivered mem k r ⟨v, t, [], ws⟩) mem d
  simp only [process, yields_bind, yields_peek, hp, processReadRegisters, yields_ite,
    yields_peekWord, yields_pure, yields_alloc, yields_call, ha, hq, hr, hmem, if_true]
  refine ⟨fun h => absurd rfl h, fun _ => ⟨fun h => ?_, fun _ => ⟨fun h => ?_, fun _ => ?_⟩⟩⟩
  · omega
  · omega
  · refine ⟨fun hx => ?_, fun hx => ?_⟩
    · rw [replyException, if_pos (hcode hx)]
      simp only [yields_bind, yields_peek, yields_poke, yields_pure, List.nil_append,
        List.append_nil]
      rw [Delivered, if_neg hx]
      exact ⟨rfl, (holds_spread_iff rfl).mpr rfl⟩
    · simp only [yields_poke, yields_pokeBytes, replyException, isException_retOk,
        Bool.false_eq_true, if_false, yields_pure, List.nil_append, List.append_nil, hdata]
      rw [Delivered, if_pos (not_not.mp hx), Nat.mul_comm k 2]
      exact ⟨rfl, (holds_spread_iff rfl).mpr rfl⟩

end Reply

/-- A read of holding registers is checked where it finds every register of the range and there are no
outputs among them. -/
theorem readsChecked_iff (d : Device ω η) (usAddress : UInt16) (k : Nat) :
    ReadsChecked fw d usAddress k ↔ HoldingKept fw d usAddress k ∧ InputKept fw d usAddress k := by
  rw [← rangeChecked_holding_iff, ← rangeChecked_input_iff]
  constructor
  · intro hc
    exact ⟨⟨hc.holding, hc.stores⟩, hc.input⟩
  · rintro ⟨⟨hh, hs⟩, hi⟩
    refine ⟨hh, hs, hi, fun mem m hreq hfc => ?_, fun mem m hreq hfc => ?_⟩
    · refine readRegisters_delivered _ hreq (readHoldingRegisters_afterAlloc _)
        (readHoldingRegisters_length fw usAddress k d) (fun hx => ?_) (by rw [hfc]; rfl)
      exact absurd (readHoldingRegisters_ok fw usAddress k d) hx
    · refine readRegisters_delivered (fun a k d => (readInputRegisters fw a d k, d)) hreq
        (readInputRegisters_congr rfl)
        (readInputRegisters_length fw usAddress d k)
        (readInputRegisters_isException fw usAddress d k) (by rw [hfc]; rfl)

/-- Address 0 has no register, and reads 0. -/
theorem missing_register_read : ¬ReadsChecked bareFirmware bareDevice 0 1 := by
  intro hc
  have hr := hc.holding.refused (.inr ⟨0, by simp [addresses], rfl⟩)
  exact absurd hr (by decide)

end EdgeNode.Modbus
