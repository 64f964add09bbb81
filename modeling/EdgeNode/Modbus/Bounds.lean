import EdgeNode.Modbus.Slave

/-! Which requests keep `FTE_MODBUS_SLAVE_process` inside the request frame and the
response buffer. -/

namespace EdgeNode.Modbus

open BufferAccess

variable {ω υ η α : Type} {n m : Nat} {mem : Nat → UInt8}

/-- The response PDU length that is reported fits the response buffer. -/
def ReplyFits (m : Nat) (r : Reply) : Prop := ∀ k, r.2 = some k → k ≤ m

/-- What a branch must leave so that the tail of `process` can finish in bounds. -/
def Answerable (m : Nat) (r : Reply) : Prop := if isException r.1 then 2 ≤ m else ReplyFits m r

@[simp] theorem replyFits_none (xRet : Ret) : ReplyFits m (xRet, none) := by simp [ReplyFits]

@[simp] theorem replyFits_some (xRet : Ret) (k : Nat) : ReplyFits m (xRet, some k) ↔ k ≤ m := by
  simp [ReplyFits]

@[simp] theorem isException_retOk : isException retOk = false := rfl

@[simp] theorem isException_retInvalidMsg : isException retInvalidMsg = false := rfl

@[simp] theorem isException_retBufferTooSmall : isException retBufferTooSmall = false := rfl

@[simp] theorem isException_retNotEnoughMemory : isException retNotEnoughMemory = false := rfl

@[simp] theorem isException_one : isException 1 = false := rfl

theorem answerable_none (xRet : Ret) (hm : 2 ≤ m) : Answerable m (xRet, none) := by
  unfold Answerable
  split
  · exact hm
  · exact replyFits_none xRet

/-- The 16-bit field at index `i` of the request. -/
def field (mem : Nat → UInt8) (i : Nat) : UInt16 := ntohs (mem i) (mem (i + 1))

@[simp] theorem safe_peekWord {σ : Type} {s : σ} (i : Nat) (Q : UInt16 → σ → Prop) :
    Safe n m (peekWord i) Q mem s ↔ i + 1 < n ∧ Q (field mem i) s := by
  simp only [peekWord, field, safe_bind, safe_peek, safe_pure]
  constructor
  · rintro ⟨-, h, hQ⟩
    exact ⟨h, hQ⟩
  · rintro ⟨h, hQ⟩
    exact ⟨by omega, h, hQ⟩

theorem flatMap_htons_length (l : List UInt16) : (l.flatMap htons).length = 2 * l.length := by
  induction l with
  | nil => rfl
  | cons w l ih => simp [List.flatMap_cons, ih]; omega

section Branch

variable (fw : Firmware ω υ η) {d : Device ω η}

/-- The device once a block of `ulSize` bytes has been asked for. -/
def afterAlloc (ulSize : Nat) (d : Device ω η) : Device ω η :=
  { d with kernel := (fw.allocZero ulSize d.kernel).2 }

@[simp] theorem safe_alloc (ulSize : Nat) (p : Access (Device ω η) (Ret × Option α))
    (Q : Ret × Option α → Device ω η → Prop) :
    Safe n m (alloc fw ulSize p) Q mem d ↔
      if (fw.allocZero ulSize d.kernel).1 then Safe n m p Q mem (afterAlloc fw ulSize d)
      else Q (retNotEnoughMemory, none) (afterAlloc fw ulSize d) := by
  cases h : (fw.allocZero ulSize d.kernel).1 <;> simp [alloc, afterAlloc, h]

theorem safe_writeMultiCoilsFrom {σ : Type} {s : σ} (usAddress : UInt16) (pValues i k : Nat)
    (Q : Ret → σ → Prop) :
    Safe n m (writeMultiCoilsFrom usAddress pValues i k) Q mem s ↔
      (k = 0 ∨ pValues + (i + k + 7) / 8 ≤ n) ∧ Q retOk s := by
  induction k generalizing i with
  | zero => simp [writeMultiCoilsFrom]
  | succ k ih =>
    simp only [writeMultiCoilsFrom, safe_bind, safe_peek, writeSingleCoil_onOff, ne_eq,
      not_true_eq_false, if_false, ih]
    constructor
    · rintro ⟨hi, hk, hQ⟩
      exact ⟨by omega, hQ⟩
    · rintro ⟨hk, hQ⟩
      exact ⟨by omega, by omega, hQ⟩

theorem safe_replyException (hn : 0 < n) (r : Reply) :
    Safe n m (replyException r) (fun r _ => ReplyFits m r) mem d ↔ Answerable m r := by
  unfold replyException Answerable
  split
  · simp only [safe_bind, safe_peek, safe_poke, safe_pure, replyFits_some]
    omega
  · simp

theorem answerable_reply (xRet : Ret) (k : Nat) (hr : isException xRet = false) :
    Answerable m (xRet, some k) ↔ k ≤ m := by
  simp [Answerable, hr]

theorem answerable_failed (xRet : Ret) (hr : isException xRet = false) :
    Answerable m (xRet, none) := by
  simp [Answerable, hr]

theorem processReadBits_safe (hn : 0 < n)
    (fRead : Option (UInt16 → UInt16 → List UInt8 → Device ω η → (Ret × List UInt8) × Device ω η)) :
    Safe n m (processReadBits fw n m fRead) (fun r _ => Answerable m r) mem d := by
  unfold processReadBits
  simp only [safe_ite, safe_bind, safe_peekWord, safe_pure]
  refine ⟨fun _ => answerable_failed _ rfl, fun h5 => ⟨by omega, by omega,
    fun _ => answerable_failed _ rfl, fun hq => ⟨fun _ => answerable_failed _ rfl, fun hm => ?_⟩⟩⟩
  rw [safe_alloc]
  split
  · cases fRead with
    | none => exact (safe_pure _).mpr (answerable_none _ (by omega))
    | some f =>
      simp only [safe_bind, safe_call, safe_ite, safe_pure, safe_peek, safe_poke, safe_pokeBytes]
      refine ⟨fun _ => answerable_none _ (by omega), fun _ => ⟨hn, by omega, by omega, Or.inr ?_,
        (answerable_reply _ _ rfl).mpr (by omega)⟩⟩
      rw [List.length_take]
      omega
  · exact answerable_failed _ rfl

theorem safe_replyRegisters (hn : 0 < n) (k : Nat) (values : List UInt16)
    (hv : values.length = k) (b : UInt8) :
    Safe n m (do
      let fc ← peek 0
      poke 0 fc
      poke 1 b
      pokeBytes 2 ((values.take k).flatMap htons)
      pure (retOk, some (2 + k * 2)))
      (fun r (_ : Device ω η) => Answerable m r) mem d ↔ 2 + 2 * k ≤ m := by
  subst hv
  simp only [safe_bind, safe_peek, safe_poke, safe_pokeBytes, safe_pure, List.take_length,
    flatMap_htons_length, answerable_reply _ _ isException_retOk]
  omega

theorem processReadRegisters_safe (hn : 0 < n)
    {fRead : Option (UInt16 → Nat → Device ω η → (Ret × List UInt16) × Device ω η)}
    (hf : ∀ f ∈ fRead, ∀ a k d, (f a k d).1.2.length = k) :
    Safe n m (processReadRegisters fw n m fRead) (fun r _ => Answerable m r) mem d := by
  unfold processReadRegisters
  simp only [safe_ite, safe_bind, safe_peekWord, safe_pure]
  refine ⟨fun _ => answerable_failed _ rfl, fun h5 => ⟨by omega, by omega,
    fun _ => answerable_failed _ rfl, fun hq => ⟨fun _ => answerable_failed _ rfl, fun hm => ?_⟩⟩⟩
  rw [safe_alloc]
  split
  · cases fRead with
    | none => exact (safe_pure _).mpr (answerable_none _ (by omega))
    | some f =>
      rw [safe_bind, safe_call, safe_ite, safe_pure]
      refine ⟨fun _ => answerable_none _ (by omega), fun _ => ?_⟩
      exact (safe_replyRegisters hn _ _ (hf f rfl _ _ _) _).mpr (by omega)
  · exact answerable_failed _ rfl

theorem safe_replyEcho (hn : 0 < n) (hm : 5 ≤ m) (usAddress usValue : UInt16) :
    Safe n m (replyEcho usAddress usValue) (fun r _ => Answerable m r) mem d := by
  simp only [replyEcho, safe_bind, safe_peek, safe_poke, safe_pokeBytes, safe_pure, htons_length,
    answerable_reply _ _ isException_retOk]
  omega

theorem processWriteSingle_safe (hn : 0 < n)
    (fWrite : Option (UInt16 → UInt16 → Device ω η → Ret × Device ω η)) :
    Safe n m (processWriteSingle n m fWrite) (fun r _ => Answerable m r) mem d := by
  unfold processWriteSingle
  simp only [safe_ite, safe_bind, safe_peekWord, safe_pure]
  refine ⟨fun _ => answerable_failed _ rfl, fun h5 => ⟨by omega, by omega,
    fun _ => answerable_failed _ rfl, fun hm => ?_⟩⟩
  cases fWrite with
  | none => exact (safe_pure _).mpr (answerable_none _ (by omega))
  | some f =>
    rw [safe_bind, safe_call, safe_ite, safe_pure]
    exact ⟨fun _ => answerable_none _ (by omega), fun _ => safe_replyEcho hn (by omega) _ _⟩

/-- The quantity field of a multi-coil write against its byte count. -/
def CoilsFit (n m : Nat) (mem : Nat → UInt8) : Prop :=
  6 < n → n = 6 + (mem 5).toNat → 5 ≤ m → ((field mem 3).toNat + 7) / 8 ≤ (mem 5).toNat

theorem processWriteMultiCoils_safe_iff (hn : 0 < n) :
    Safe n m (processWriteMultiCoils (generalModel fw) n m) (fun r _ => Answerable m r) mem d ↔
      CoilsFit n m mem := by
  unfold processWriteMultiCoils CoilsFit
  simp only [safe_ite, safe_bind, safe_peekWord, safe_peek, safe_pure, generalModel,
    writeMultiCoils, safe_writeMultiCoilsFrom, ne_eq, not_true_eq_false, false_imp_iff, true_and,
    not_false_eq_true, true_imp_iff]
  constructor
  · rintro ⟨-, h⟩ h6 hlen hm
    obtain ⟨-, -, -, -, h⟩ := h (by omega)
    obtain ⟨-, h⟩ := h (by omega)
    obtain ⟨hq, -⟩ := h (by omega)
    omega
  · intro h
    refine ⟨fun _ => answerable_failed _ rfl, fun h6 => ⟨by omega, by omega, by omega,
      fun _ => answerable_failed _ rfl, fun hlen => ⟨fun _ => answerable_failed _ rfl,
        fun hm => ⟨?_, safe_replyEcho hn (by omega) _ _⟩⟩⟩⟩
    have hq := h (by omega) (by omega) (by omega)
    omega

/-- The quantity field of a multi-register write against its byte count. -/
def RegistersFit (n m : Nat) (mem : Nat → UInt8) (d : Device ω η) : Prop :=
  6 < n → n = 6 + (mem 5).toNat → 5 ≤ m →
    (fw.allocZero (2 * (field mem 3).toNat) d.kernel).1 = true →
      2 * (field mem 3).toNat ≤ (mem 5).toNat

theorem processWriteMultiRegisters_safe_iff (hn : 0 < n) :
    Safe n m (processWriteMultiRegisters fw (generalModel fw) n m)
      (fun r _ => Answerable m r) mem d ↔ RegistersFit fw n m mem d := by
  unfold processWriteMultiRegisters RegistersFit
  simp only [safe_ite, safe_bind, safe_peekWord, safe_peek, safe_pure, generalModel, safe_alloc,
    safe_peekBytes, safe_call]
  constructor
  · rintro ⟨-, h⟩ h6 hlen hm ha
    obtain ⟨-, -, -, -, h⟩ := h (by omega)
    obtain ⟨-, h⟩ := h (by omega)
    have h := h (by omega)
    rw [if_pos ha] at h
    have hq := h.1
    omega
  · intro h
    refine ⟨fun _ => answerable_failed _ rfl, fun h6 => ⟨by omega, by omega, by omega,
      fun _ => answerable_failed _ rfl, fun hlen => ⟨fun _ => answerable_failed _ rfl,
        fun hm => ?_⟩⟩⟩
    split
    · rename_i ha
      have hq := h (by omega) (by omega) (by omega) ha
      exact ⟨by omega, fun _ => answerable_none _ (by omega),
        fun _ => safe_replyEcho hn (by omega) _ _⟩
    · exact answerable_failed _ rfl

/-- The registers read back after a write against the response buffer. -/
def ReadBackFits (m : Nat) (usReadAddress usReadQuantity : UInt16) (d : Device ω η) : Prop :=
  (fw.allocZero (2 * usReadQuantity.toNat) d.kernel).1 = true →
    (readInputRegisters fw usReadAddress (afterAlloc fw (2 * usReadQuantity.toNat) d)
      usReadQuantity.toNat).1 = retOk → 2 + 2 * usReadQuantity.toNat ≤ m

theorem processReadBack_safe_iff (hn : 0 < n) (hm : 2 ≤ m) (usReadAddress usReadQuantity : UInt16) :
    Safe n m (processReadBack fw (generalModel fw) usReadAddress usReadQuantity)
      (fun r _ => Answerable m r) mem d ↔ ReadBackFits fw m usReadAddress usReadQuantity d := by
  unfold processReadBack ReadBackFits
  rw [safe_alloc]
  split
  · rename_i ha
    simp only [ha, true_imp_iff, generalModel]
    rw [safe_bind, safe_call, safe_ite, safe_pure]
    rw [safe_replyRegisters hn _ _ (readInputRegisters_length fw _ _ _)]
    constructor
    · rintro ⟨-, h⟩ hok
      exact h (by simp [hok])
    · intro h
      exact ⟨fun _ => answerable_none _ hm, fun hok => h (by simpa using hok)⟩
  · rename_i ha
    simp only [ha]
    exact iff_of_true (answerable_failed _ rfl) (fun h => absurd h (by simp))

/-- Both quantities of a write-and-read. The values are taken from index 6 on, and the read is
reached only when the device takes the write. -/
def WriteReadFits (n m : Nat) (mem : Nat → UInt8) (d : Device ω η) : Prop :=
  10 < n → n = 10 + (mem 9).toNat → 2 ≤ m →
    (fw.allocZero (2 * (field mem 7).toNat) d.kernel).1 = true →
      6 + 2 * (field mem 7).toNat ≤ n ∧
        let w := writeMultiRegisters fw (field mem 5)
          (words (bytesAt mem 6 (2 * (field mem 7).toNat)))
          (afterAlloc fw (2 * (field mem 7).toNat) d)
        w.1 = retOk → ReadBackFits fw m (field mem 1) (field mem 3) w.2

theorem processWriteReadMultiRegisters_safe_iff (hn : 0 < n) :
    Safe n m (processWriteReadMultiRegisters fw (generalModel fw) n m)
      (fun r _ => Answerable m r) mem d ↔ WriteReadFits fw n m mem d := by
  unfold processWriteReadMultiRegisters WriteReadFits
  simp only [safe_ite, safe_bind, safe_peekWord, safe_peek, safe_pure, safe_alloc,
    safe_peekBytes]
  constructor
  · rintro ⟨-, h⟩ h6 hlen hm ha
    obtain ⟨-, -, -, -, -, -, h⟩ := h (by omega)
    obtain ⟨-, h⟩ := h (by omega)
    have h := h (by omega)
    rw [if_pos ha] at h
    simp only [generalModel, safe_bind, safe_call, safe_ite, safe_pure] at h
    obtain ⟨hq, -, h⟩ := h
    refine ⟨by omega, fun hw => ?_⟩
    exact (processReadBack_safe_iff fw hn hm _ _).mp (h (by simpa using hw))
  · intro h
    refine ⟨fun _ => answerable_failed _ rfl, fun h6 => ⟨by omega, by omega, by omega, by omega,
      by omega, fun _ => answerable_failed _ rfl, fun hlen => ⟨fun _ => answerable_failed _ rfl,
        fun hm => ?_⟩⟩⟩
    split
    · rename_i ha
      obtain ⟨hq, hr⟩ := h (by omega) (by omega) (by omega) ha
      simp only [generalModel, safe_bind, safe_call, safe_ite, safe_pure]
      refine ⟨by omega, fun _ => answerable_none _ (by omega), fun hw => ?_⟩
      exact (processReadBack_safe_iff fw hn (by omega) _ _).mpr (hr (by simpa using hw))
    · exact answerable_failed _ rfl

/-- A refused identification request is answered by an exception without a look at the buffer. -/
def IdentFits (n m : Nat) (mem : Nat → UInt8) : Prop :=
  4 < n → (readDeviceIdent (mem 1) (mem 2) (mem 3) 3).1 ≠ retOk → 2 ≤ m

theorem readDeviceIdent_isException (ucMEIType ucDeviceIDCode ucObjectID : UInt8) (k : Nat)
    (h : (readDeviceIdent ucMEIType ucDeviceIDCode ucObjectID k).1 ≠ retOk) :
    isException (readDeviceIdent ucMEIType ucDeviceIDCode ucObjectID k).1 = true := by
  unfold readDeviceIdent at h ⊢
  split_ifs at h ⊢
  all_goals first | rfl | exact absurd rfl h

theorem processReadDeviceIdent_safe_iff (hn : 0 < n) :
    Safe n m (processReadDeviceIdent (generalModel fw) n m) (fun r _ => Answerable m r) mem d ↔
      IdentFits n m mem := by
  unfold processReadDeviceIdent IdentFits
  simp only [safe_ite, safe_bind, safe_peek, safe_pure, generalModel, safe_pokeBytes,
    answerable_reply _ _ isException_retOk]
  constructor
  · rintro ⟨-, h⟩ h4 hx
    obtain ⟨-, -, -, h, -⟩ := h (by omega)
    have hm := h hx
    rwa [Answerable, if_pos (readDeviceIdent_isException _ _ _ _ hx)] at hm
  · intro h
    refine ⟨fun _ => answerable_failed _ rfl, fun h4 => ⟨by omega, by omega, by omega,
      fun hx => answerable_none _ (h (by omega) hx), fun _ => ⟨fun _ => answerable_failed _ rfl,
        fun hm => ⟨hn, Or.inr (by simp; omega), Or.inr (by omega), by omega⟩⟩⟩⟩

end Branch

/-- The requests that stay inside both buffers, by function code. -/
def FitsBuffers (fw : Firmware ω υ η) (n m : Nat) (mem : Nat → UInt8) (d : Device ω η) : Prop :=
  0 < n ∧
    match (mem 0).toNat with
    | 15 => CoilsFit n m mem
    | 16 => RegistersFit fw n m mem d
    | 23 => WriteReadFits fw n m mem d
    | 43 => IdentFits n m mem
    | _ => True

theorem processFunction_safe_iff (fw : Firmware ω υ η) {d : Device ω η} (hn : 0 < n) :
    Safe n m (processFunction fw (generalModel fw) n m (mem 0)) (fun r _ => Answerable m r) mem d ↔
      FitsBuffers fw n m mem d := by
  simp only [FitsBuffers, hn, true_and]
  unfold processFunction
  split <;> rename_i hfc <;> simp only [hfc]
  · exact iff_true_intro (processReadBits_safe fw hn _)
  · exact iff_true_intro (processReadBits_safe fw hn _)
  · refine iff_true_intro (processReadRegisters_safe fw hn ?_)
    rintro f ⟨⟩ a k d
    exact readHoldingRegisters_length fw a k d
  · refine iff_true_intro (processReadRegisters_safe fw hn ?_)
    rintro f ⟨⟩ a k d
    exact readInputRegisters_length fw a d k
  · exact iff_true_intro (processWriteSingle_safe hn _)
  · exact iff_true_intro (processWriteSingle_safe hn _)
  · exact processWriteMultiCoils_safe_iff fw hn
  · exact processWriteMultiRegisters_safe_iff fw hn
  · exact processWriteReadMultiRegisters_safe_iff fw hn
  · exact processReadDeviceIdent_safe_iff fw hn
  · exact (safe_pure _).trans (iff_true_intro (answerable_failed _ rfl))

/-- `FTE_MODBUS_SLAVE_process` reads request bytes below `ulReqFrameLen` only, writes response bytes
below `ulRespBuffLen` only, and reports a length not above `ulRespBuffLen`. -/
def StaysInBounds (fw : Firmware ω υ η) (ulReqFrameLen ulRespBuffLen : Nat) (mem : Nat → UInt8)
    (d : Device ω η) : Prop :=
  let run := process fw (generalModel fw) ulReqFrameLen ulRespBuffLen mem d
  (∀ i ∈ run.reads, i < ulReqFrameLen) ∧ (∀ w ∈ run.writes, w.1 < ulRespBuffLen) ∧
    ReplyFits ulRespBuffLen run.val

theorem process_staysInBounds_iff (fw : Firmware ω υ η) (ulReqFrameLen ulRespBuffLen : Nat)
    (mem : Nat → UInt8) (d : Device ω η) :
    StaysInBounds fw ulReqFrameLen ulRespBuffLen mem d ↔
      FitsBuffers fw ulReqFrameLen ulRespBuffLen mem d := by
  change Safe ulReqFrameLen ulRespBuffLen (process fw (generalModel fw) ulReqFrameLen ulRespBuffLen)
    (fun r _ => ReplyFits ulRespBuffLen r) mem d ↔ _
  rw [process, safe_bind, safe_peek, safe_bind]
  constructor
  · rintro ⟨hn, h⟩
    exact (processFunction_safe_iff fw hn).mp (h.imp fun r t => (safe_replyException hn r).mp)
  · intro h
    have hn := h.1
    exact ⟨hn, ((processFunction_safe_iff fw hn).mpr h).imp fun r t =>
      (safe_replyException hn r).mpr⟩

/-- Function 15 for 100 coils that carries one byte of them. -/
theorem process_multiCoils_overrun :
    ¬ StaysInBounds bareFirmware 7 260 (fun i => [15, 0, 0, 0, 100, 1, 0xFF].getD i 0)
      bareDevice := by
  intro h
  have h7 : (7 : Nat) < 7 := h.1 7 (by decide)
  omega

end EdgeNode.Modbus
