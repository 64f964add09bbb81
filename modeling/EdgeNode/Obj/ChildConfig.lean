import EdgeNode.Json.Print
import EdgeNode.Obj.Fx3d

/-! What a JSON text leaves of the settings of an FX3D, and when they are reported as they were written. -/

namespace EdgeNode.Obj.Fx3d

open Values Json

section Calls

variable {line : Line} {n i : UInt32} {v : Int32} {r : Run} {x : Settings} {A : UInt32 → Prop}

theorem atLeast_ne (ulDeviation : UInt32) : atLeast ulDeviation ≠ 0 := by
  rw [atLeast]
  split
  · decide
  next h =>
    rintro rfl
    exact h (by decide)

/-- What comes before the writes. -/
def Settings.start (x : Settings) (n : UInt32) (r : Run) : Run :=
  if x.cooling.getD 0 = 0 ∧ x.heating.getD 0 = 0 then (r.output n).2 else r

theorem apply_eq (line : Line) (n : UInt32) (x : Settings) (r : Run) :
    apply line n x r =
      andThen (writeTarget line n (x.target.getD line.nTargetTemperature) (x.start n r)) fun r' =>
        andThen (writeMode line n (x.mode (r.s.pOutputConfigs n).ulMode) r') fun r' =>
          if x.deviation ≠ 0 then writeDeviation line n x.deviation r' else (retOk, r') := by
  rw [apply, Settings.start, Settings.mode, Settings.deviation]
  by_cases hc : x.cooling.getD 0 = 0
  · by_cases hh : x.heating.getD 0 = 0
    · simp [hc, hh, Run.output]
    · simp [hc, hh, atLeast_ne, modeCooling, modeHeating]
  · simp [hc, atLeast_ne, modeCooling]

/-- A call keeps to the index `n` and to the registers of `A`. -/
structure Within (n : UInt32) (A : UInt32 → Prop) (r : Run) : Prop where
  accessed : ∀ i ∈ r.accessed, i = n
  log : ∀ req ∈ r.log, A req.1

theorem within_output (h : Within n A r) : Within n A (r.output n).2 :=
  ⟨fun i hi => (List.mem_append.mp hi).elim (h.accessed i) List.mem_singleton.mp, h.log⟩

theorem within_setOutput (h : Within n A r) (out : Output) : Within n A (r.setOutput n out) :=
  ⟨fun i hi => (List.mem_append.mp hi).elim (h.accessed i) List.mem_singleton.mp, h.log⟩

theorem andThen_rule {Q R : Run → Prop} {y : Ret × Run} {f : Run → Ret × Run} (hy : Q y.2)
    (herror : ∀ r, Q r → R r) (hf : ∀ r, Q r → R (f r).2) : R (andThen y f).2 := by
  rw [andThen]
  split
  · exact hf _ hy
  · exact herror _ hy

theorem within_retry (hA : A i) (turns : Nat) (xRet : Ret) (h : Within n A r) :
    Within n A (retry line i v turns xRet r).2 ∧
      (retry line i v turns xRet r).2.s.pOutputConfigs = r.s.pOutputConfigs := by
  induction turns generalizing xRet r with
  | zero => exact ⟨h, rfl⟩
  | succ turns ih =>
    have hreg : Within n A (r.setReg line i v).2 := by
      refine ⟨h.accessed, fun req hreq => ?_⟩
      rcases List.mem_append.mp hreq with hold | hnew
      · exact h.log req hold
      · rw [List.mem_singleton.mp hnew]
        exact hA
    have hout : (r.setReg line i v).2.s.pOutputConfigs = r.s.pOutputConfigs := by
      rw [Run.setReg]
      dsimp only
      split <;> rfl
    rw [retry]
    dsimp only
    split
    · exact ⟨hreg, hout⟩
    · obtain ⟨hwithin, hsame⟩ := ih retError hreg
      exact ⟨hwithin, hsame.trans hout⟩

theorem within_writeReg (hA : A i) (h : Within n A r) : Within n A (writeReg line i v r).2 ∧
    (writeReg line i v r).2.s.pOutputConfigs = r.s.pOutputConfigs := by
  rw [writeReg]
  split
  · exact within_retry hA _ _ h
  · exact ⟨h, rfl⟩

theorem within_writeMode {m : UInt32} (hA : (r.s.pOutputConfigs n).ulMode ≠ m → A (n * 8 + 2))
    (h : Within n A r) : Within n A (writeMode line n m r).2 := by
  rw [writeMode]
  dsimp only [Run.output]
  split
  next hne =>
    exact andThen_rule (within_writeReg (hA hne) (within_output h)).1 (fun _ h => h)
      fun _ h => within_setOutput h _
  next => exact within_output h

theorem within_writeDeviation {ulDeviation : UInt32} (hA : A (n * 8 + 3)) (h : Within n A r) :
    Within n A (writeDeviation line n ulDeviation r).2 :=
  andThen_rule (within_writeReg hA h).1 (fun _ h => h) fun _ h => within_setOutput h _

theorem mode_of_zero (h : x.deviation = 0) (ulMode : UInt32) : x.mode ulMode = ulMode := by
  rw [Settings.deviation] at h
  rw [Settings.mode]
  split at h
  · exact absurd h (atLeast_ne _)
  next hc =>
    split at h
    · exact absurd h (atLeast_ne _)
    next hh => rw [if_neg hc, if_neg hh]

theorem mode_of_deviation (h : x.deviation ≠ 0) (ulMode : UInt32) :
    x.mode ulMode = modeCooling ∨ x.mode ulMode = modeHeating := by
  rw [Settings.deviation] at h
  rw [Settings.mode]
  split at h
  next hc => exact .inl (if_pos hc)
  next hc =>
    split at h
    next hh => exact .inr ((if_neg hc).trans (if_pos hh))
    next => exact absurd rfl h

/-- Whatever is answered, a call keeps to its output and to the registers of settings that are asked for. -/
theorem within_apply (s : Controller) (htarget : A n)
    (houtput : x.deviation ≠ 0 → A (n * 8 + 2) ∧ A (n * 8 + 3)) :
    Within n A (apply line n x ⟨s, [], []⟩).2 := by
  have hstart : Within n A (x.start n ⟨s, [], []⟩) ∧
      (x.start n ⟨s, [], []⟩).s.pOutputConfigs = s.pOutputConfigs := by
    have hinit : Within n A ⟨s, [], []⟩ :=
      ⟨fun i hi => absurd hi List.not_mem_nil, fun req hreq => absurd hreq List.not_mem_nil⟩
    rw [Settings.start]
    split
    · exact ⟨within_output hinit, rfl⟩
    · exact ⟨hinit, rfl⟩
  rw [apply_eq]
  refine andThen_rule (Q := fun r => Within n A r ∧ r.s.pOutputConfigs = s.pOutputConfigs) ?_
    (fun _ h => h.1) fun r h => ?_
  · rw [writeTarget]
    split
    · exact (within_writeReg htarget hstart.1).imp_right fun hsame => hsame.trans hstart.2
    · exact hstart
  obtain ⟨hwithin, hsame⟩ := h
  have hmode : Within n A (writeMode line n (x.mode (s.pOutputConfigs n).ulMode) r).2 := by
    refine within_writeMode (fun hne => (houtput fun hzero => hne ?_).1) hwithin
    rw [hsame, mode_of_zero hzero]
  refine andThen_rule hmode (fun _ h => h) fun _ h => ?_
  split
  next hne => exact within_writeDeviation (houtput hne).2 h
  next => exact h

end Calls

section Successes

variable {line : Line} {n i m : UInt32} {v t : Int32} {r : Run} {s : Controller} {x : Settings}

/-- A write that was answered. -/
def Run.write (r : Run) (ulIndex : UInt32) (nValue : Int32) : Run where
  s := { r.s with regs := Function.update r.s.regs ulIndex nValue.toUInt32.toUInt16 }
  log := r.log ++ [(ulIndex, nValue)]
  accessed := r.accessed

theorem writeReg_works (h : line.Succeeds) : writeReg line i v r = (retOk, r.write i v) := by
  obtain ⟨hucs, hcount, hanswers⟩ := h
  obtain ⟨turns, hturns⟩ : ∃ turns, line.ulRetryCount.toNat = turns + 1 := by
    refine Nat.exists_eq_succ_of_ne_zero fun hzero => hcount ?_
    exact UInt32.toNat_inj.mp hzero
  have hreg : r.setReg line i v = (true, r.write i v) := by
    rw [Run.setReg, hanswers]
    rfl
  rw [writeReg, if_pos hucs, hturns, retry, hreg]
  rfl

theorem ne_of_lt (hn : n < ctrlCount) : n ≠ n * 8 + 2 ∧ n ≠ n * 8 + 3 ∧ n * 8 + 2 ≠ n * 8 + 3 := by
  have h : n = 0 ∨ n = 1 := by
    rw [ctrlCount, UInt32.lt_iff_toNat_lt] at hn
    rw [← UInt32.toNat_inj, ← UInt32.toNat_inj]
    simp at hn ⊢
    omega
  obtain rfl | rfl := h <;> decide

/-- What a step leaves whose exchanges succeed: the register of the target if it does not write there,
its output, and its requests. -/
structure Leaves (n : UInt32) (r : Run) (out : Output) (log : List (UInt32 × Int32)) (r' : Run) :
    Prop where
  regs : n < ctrlCount → r'.s.regs n = r.s.regs n
  output : r'.s.pOutputConfigs n = out
  log : r'.log = r.log ++ log
  accessed : (∀ i ∈ r.accessed, i ∈ r'.accessed)

theorem writeTarget_works (h : line.Succeeds) : writeTarget line n t r =
    (retOk, if current r.s n ≠ t then r.write n (t / 10) else r) := by
  rw [writeTarget, current]
  split
  · exact writeReg_works h
  · rfl

theorem writeMode_works (h : line.Succeeds) : ∃ r', writeMode line n m r = (retOk, r') ∧
    n ∈ r'.accessed ∧ Leaves n r { r.s.pOutputConfigs n with ulMode := m }
      (if (r.s.pOutputConfigs n).ulMode ≠ m then [(n * 8 + 2, m.toInt32)] else []) r' := by
  rw [writeMode]
  dsimp only [Run.output]
  split
  · rw [writeReg_works h, andThen, if_pos rfl]
    refine ⟨_, rfl, by simp [Run.setOutput], fun hn => ?_, Function.update_self _ _ _, rfl, ?_⟩
    · exact Function.update_of_ne (ne_of_lt hn).1 _ _
    · intro i hi
      exact List.mem_append_left _ (List.mem_append_left _ hi)
  next hsame =>
    refine ⟨_, rfl, by simp, fun _ => rfl, ?_, (List.append_nil _).symm, ?_⟩
    · rw [← not_not.mp hsame]
    · intro i hi
      exact List.mem_append_left _ hi

theorem writeDeviation_works (h : line.Succeeds) {ulDeviation : UInt32} :
    ∃ r', writeDeviation line n ulDeviation r = (retOk, r') ∧
      Leaves n r { r.s.pOutputConfigs n with ulDeviation }
        [(n * 8 + 3, (ulDeviation / 10).toInt32)] r' := by
  rw [writeDeviation, writeReg_works h, andThen, if_pos rfl]
  refine ⟨_, rfl, fun hn => ?_, Function.update_self _ _ _, rfl, ?_⟩
  · exact Function.update_of_ne (ne_of_lt hn).2.1 _ _
  · intro i hi
    exact List.mem_append_left _ hi

/-- What a call leaves whose exchanges succeed, with the target `t`. -/
structure Applied (s : Controller) (n : UInt32) (x : Settings) (t : Int32) (r : Run) : Prop where
  accessed : n ∈ r.accessed
  regs : n < ctrlCount → r.s.regs n =
    if current s n ≠ t then (t / 10).toUInt32.toUInt16 else s.regs n
  output : r.s.pOutputConfigs n = ⟨x.mode (s.pOutputConfigs n).ulMode,
    if x.deviation ≠ 0 then x.deviation else (s.pOutputConfigs n).ulDeviation⟩
  log : r.log = (if current s n ≠ t then [(n, t / 10)] else []) ++
    ((if (s.pOutputConfigs n).ulMode ≠ x.mode (s.pOutputConfigs n).ulMode then
        [(n * 8 + 2, (x.mode (s.pOutputConfigs n).ulMode).toInt32)] else []) ++
      if x.deviation ≠ 0 then [(n * 8 + 3, (x.deviation / 10).toInt32)] else [])

theorem apply_works (h : line.Succeeds) (s : Controller) (n : UInt32) (x : Settings) :
    ∃ r, apply line n x ⟨s, [], []⟩ = (retOk, r) ∧
      Applied s n x (x.target.getD line.nTargetTemperature) r := by
  have hstart : (x.start n ⟨s, [], []⟩).s = s ∧ (x.start n ⟨s, [], []⟩).log = [] := by
    rw [Settings.start]
    split <;> exact ⟨rfl, rfl⟩
  rw [apply_eq, writeTarget_works h, andThen, if_pos rfl]
  dsimp only
  generalize x.start n ⟨s, [], []⟩ = r at hstart
  obtain ⟨hs, hlog⟩ := hstart
  generalize x.target.getD line.nTargetTemperature = t
  -- the run behind the target
  obtain ⟨r₁, hr₁, hregs₁, hout₁, hlog₁⟩ : ∃ r₁,
      (if current r.s n ≠ t then r.write n (t / 10) else r) = r₁ ∧
      r₁.s.regs n = (if current s n ≠ t then (t / 10).toUInt32.toUInt16 else s.regs n) ∧
      r₁.s.pOutputConfigs = s.pOutputConfigs ∧
      r₁.log = if current s n ≠ t then [(n, t / 10)] else [] := by
    refine ⟨_, rfl, ?_⟩
    rw [hs]
    split
    · refine ⟨Function.update_self _ _ _, ?_, ?_⟩
      · rw [Run.write, hs]
      · rw [Run.write, hlog]
        rfl
    · rw [hs]
      exact ⟨rfl, rfl, hlog⟩
  obtain ⟨r₂, hr₂, hmem, hregs₂, hout₂, hlog₂, -⟩ := @writeMode_works line n
    (x.mode (s.pOutputConfigs n).ulMode) r₁ h
  rw [hr₁, hr₂, andThen, if_pos rfl]
  dsimp only
  rw [hout₁] at hout₂ hlog₂
  split
  next hdev =>
    obtain ⟨r₃, hr₃, hregs₃, hout₃, hlog₃, hacc₃⟩ := @writeDeviation_works line n r₂ h x.deviation
    refine ⟨r₃, hr₃, hacc₃ n hmem, fun hn => ?_, ?_, ?_⟩
    · rw [hregs₃ hn, hregs₂ hn, hregs₁]
    · rw [hout₃, hout₂, if_pos hdev]
    · rw [hlog₃, hlog₂, hlog₁, if_pos hdev, List.append_assoc]
  next hdev =>
    refine ⟨r₂, rfl, hmem, fun hn => ?_, ?_, ?_⟩
    · rw [hregs₂ hn, hregs₁]
    · rw [hout₂, if_neg hdev]
    · rw [hlog₂, hlog₁, if_neg hdev, List.append_nil]

theorem written_append (l l' : List (UInt32 × Int32)) (i : UInt32) :
    written (l ++ l') i = (written l i).or (written l' i) := by
  rw [written, List.find?_append, Option.map_or]
  rfl

theorem written_if {p : Prop} [Decidable p] (i j : UInt32) (v : Int32) :
    written (if p then [(j, v)] else []) i = if p ∧ j = i then some v else none := by
  by_cases hp : p <;> by_cases hj : j = i <;> simp [written, hp, hj]

/-- The settings behind the writes of a call, and those that there are. -/
theorem Applied.after (h : Applied s n x t r) (hn : n < ctrlCount) :
    (told s n).after n r.log =
      ⟨if current s n ≠ t then t / 10 * 10 else (told s n).target, x.mode (s.pOutputConfigs n).ulMode,
        if x.deviation ≠ 0 then (x.deviation / 10).toInt32 * 10 else (told s n).deviation⟩ := by
  obtain ⟨h2, h3, h23⟩ := ne_of_lt hn
  have hwritten (i : UInt32) : written r.log i =
      (if current s n ≠ t ∧ n = i then some (t / 10) else none).or
        ((if (s.pOutputConfigs n).ulMode ≠ x.mode (s.pOutputConfigs n).ulMode ∧ n * 8 + 2 = i then
            some (x.mode (s.pOutputConfigs n).ulMode).toInt32 else none).or
          (if x.deviation ≠ 0 ∧ n * 8 + 3 = i then some (x.deviation / 10).toInt32 else none)) := by
    rw [h.log, written_append, written_append, written_if, written_if, written_if]
  have htarget : written r.log n = if current s n ≠ t then some (t / 10) else none := by
    rw [hwritten]
    simp [h2.symm, h3.symm]
  have hmode : written r.log (n * 8 + 2) =
      if (s.pOutputConfigs n).ulMode ≠ x.mode (s.pOutputConfigs n).ulMode then
        some (x.mode (s.pOutputConfigs n).ulMode).toInt32 else none := by
    rw [hwritten]
    simp [h2, h23.symm]
  have hdeviation : written r.log (n * 8 + 3) =
      if x.deviation ≠ 0 then some (x.deviation / 10).toInt32 else none := by
    rw [hwritten]
    simp [h3, h23]
  rw [Told.after, htarget, hmode, hdeviation, Told.mk.injEq]
  refine ⟨?_, ?_, ?_⟩
  · split <;> rfl
  · by_cases hsame : (s.pOutputConfigs n).ulMode = x.mode (s.pOutputConfigs n).ulMode
    · rw [if_neg (not_not.mpr hsame)]
      exact hsame
    · rw [if_pos hsame]
      simp
  · split <;> rfl

theorem Applied.told_eq (h : Applied s n x t r) (hn : n < ctrlCount) :
    told r.s n =
      ⟨if current s n ≠ t then (t / 10).toUInt32.toUInt16.toInt16.toInt32 * 10
        else (told s n).target, x.mode (s.pOutputConfigs n).ulMode,
        if x.deviation ≠ 0 then x.deviation.toInt32 else (told s n).deviation⟩ := by
  rw [told, h.regs hn, h.output, Told.mk.injEq]
  refine ⟨?_, rfl, ?_⟩
  · split <;> rfl
  · dsimp only
    split <;> rfl

/-- Whatever the mode, the object has each key once. -/
theorem configPairs_eq (s : Controller) (n : UInt32) :
    configPairs (told s n).target (s.pOutputConfigs n) = (told s n).pairs := by
  rw [configPairs, Told.pairs, told]
  by_cases hc : (s.pOutputConfigs n).ulMode = modeCooling
  · simp [hc, setPair, modeCooling, modeHeating]
  · by_cases hh : (s.pOutputConfigs n).ulMode = modeHeating
    · simp [hh, setPair, modeCooling, modeHeating]
    · simp [hc, hh, setPair]

theorem getChildConfig_eq {child : Child} (hctrl : child.ctrl = true) (hparent : child.pParent = true)
    (hn : child.nCtrlID < ctrlCount) (ulBuffLen : UInt32) (s : Controller) :
    ((getChildConfig child true true ulBuffLen s).1, (getChildConfig child true true ulBuffLen s).2.1) =
      if buffSize (told s child.nCtrlID).object ≥ ulBuffLen.toNat then (retError, none)
      else (retOk, some (told s child.nCtrlID).object) := by
  have hvalue (v : Values.Value) (nValue : Int32) : (accept v nValue.toUInt32).2.xData.toInt32 = nValue := by
    simp [accept, setValid]
  have hlt : ¬ child.nCtrlID ≥ ctrlCount := UInt32.not_le.mpr hn
  rw [getChildConfig, if_pos ⟨hctrl, hparent⟩]
  dsimp only
  rw [if_neg hlt, if_pos rfl, if_pos rfl]
  have hpairs := configPairs_eq s child.nCtrlID
  rw [told] at hpairs
  simp only [Function.update_self, hvalue, hpairs]
  split
  next h => exact (if_pos h).symm
  next h => exact (if_neg h).symm

end Successes

section Numbers

theorem toInt16_eq (v : Int32) : v.toUInt32.toUInt16.toInt16 = v.toInt16 := by
  apply Int16.toBitVec_inj.mp
  rw [Int32.toBitVec_toInt16, BitVec.signExtend_eq_setWidth_of_le _ (by decide)]
  rfl

/-- A tenth of a word leaves room for ten times itself. -/
theorem tenth_bound (t : Int32) : -214748364 ≤ (t / 10).toInt ∧ (t / 10).toInt ≤ 214748364 := by
  have hdiv : (t / 10).toInt = t.toInt.tdiv 10 := Int32.toInt_div_of_ne_right t 10 (by decide)
  have habs : (t.toInt.tdiv 10).natAbs = t.toInt.natAbs / 10 := Int.natAbs_tdiv t.toInt 10
  have hlo := t.le_toInt
  have hhi := t.toInt_lt
  rw [hdiv]
  omega

theorem mul_ten {v : Int32} (hlo : -214748364 ≤ v.toInt) (hhi : v.toInt ≤ 214748364) :
    (v * 10).toInt = v.toInt * 10 := by
  rw [Int32.toInt_mul]
  exact Int.bmod_eq_of_le (by simp; omega) (by simp; omega)

/-- A tenth of a target comes back from its register just when it is a word of 16 bits. -/
theorem held_iff (t : Int32) : (t / 10).toUInt32.toUInt16.toInt16.toInt32 * 10 = t / 10 * 10 ↔
    -2 ^ 15 ≤ (t / 10).toInt ∧ (t / 10).toInt < 2 ^ 15 := by
  obtain ⟨hlo, hhi⟩ := tenth_bound t
  generalize t / 10 = v at *
  have hheld : v.toUInt32.toUInt16.toInt16.toInt32.toInt = v.toInt.bmod (2 ^ 16) := by
    rw [toInt16_eq, Int16.toInt_toInt32, Int32.toInt_toInt16]
  have hmod : v.toInt.bmod (2 ^ 16) = v.toInt ↔ -2 ^ 15 ≤ v.toInt ∧ v.toInt < 2 ^ 15 := by
    constructor
    · intro h
      have h1 := Int.le_bmod (x := v.toInt) (m := 2 ^ 16) (by decide)
      have h2 := Int.bmod_lt (x := v.toInt) (m := 2 ^ 16) (by decide)
      rw [h] at h1 h2
      simp at h1 h2
      omega
    · rintro ⟨h1, h2⟩
      exact Int.bmod_eq_of_le (by simp; omega) (by simp; omega)
  rw [← Int32.toInt_inj, mul_ten hlo hhi, mul_ten, hheld]
  · omega
  · have h1 := Int.le_bmod (x := v.toInt) (m := 2 ^ 16) (by decide)
    rw [hheld]
    simp at h1 ⊢
    omega
  · have h2 := Int.bmod_lt (x := v.toInt) (m := 2 ^ 16) (by decide)
    rw [hheld]
    simp at h2 ⊢
    omega

theorem tenths_iff (u : UInt32) : (u / 10).toInt32 * 10 = u.toInt32 ↔ u % 10 = 0 := by
  have hmul : (u / 10).toInt32 * 10 = (u / 10 * 10).toInt32 := rfl
  rw [hmul]
  constructor
  · intro h
    have h := congrArg Int32.toUInt32 h
    rw [UInt32.toUInt32_toInt32, UInt32.toUInt32_toInt32] at h
    rw [← UInt32.toNat_inj] at h ⊢
    simp at h ⊢
    have := u.toNat_lt
    omega
  · intro h
    congr 1
    rw [← UInt32.toNat_inj] at h ⊢
    simp at h ⊢
    have := u.toNat_lt
    omega

end Numbers

section Reports

variable {x y : Told}

theorem object_inj (h : x.object = y.object) : x.pairs = y.pairs := by
  have hslots := Json.Tree.object.inj h
  simp only [Told.pairs, pairSlots, Slots.cons.injEq, Json.Tree.pair.injEq, Json.Tree.float.injEq] at hslots
  simp only [Told.pairs, hslots]

theorem printable_object : Printable x.object ↔ x.Readable := by
  have hkeys : JsonText.Plain stringTargetTemperature.val ∧
      JsonText.Plain stringCoolingDeviation.val ∧ JsonText.Plain stringHeatingDeviation.val := by
    decide
  simp [Told.object, Told.pairs, pairSlots, Told.Readable, Printable, PrintableMembers,
    PrintableMember, hkeys]

theorem printFloat_length_le (v : Int32) : (printFloat v.toInt).length ≤ 30 := by
  have hdecimal (k : Nat) (hk : k ≤ 10) (z : Int) (hz : z.natAbs < 10 ^ 10) :
      (Numerals.decimal k z).length ≤ 11 := by
    have hdigits := (Nat.length_toDigits_le_iff (b := 10) (by decide) (by decide : 0 < 10)).mpr hz
    rw [Numerals.decimal]
    split
    · rw [List.length_cons, List.length_leftpad]
      omega
    · rw [List.length_leftpad]
      omega
  have hlo := v.le_toInt
  have hhi := v.toInt_lt
  have hdiv : (v.toInt.tdiv 100).natAbs = v.toInt.natAbs / 100 := Int.natAbs_tdiv v.toInt 100
  have hmod : (v.toInt.tmod 100).natAbs = v.toInt.natAbs % 100 := Int.natAbs_tmod v.toInt 100
  have hwhole := hdecimal 0 (by decide) (v.toInt.tdiv 100) (by omega)
  have hpart := hdecimal 2 (by decide) (v.toInt.tmod 100) (by omega)
  rw [printFloat]
  split
  · omega
  · rw [List.length_append, List.length_cons]
    omega

theorem exists_room (x : Told) : ∃ ulBuffLen : UInt32, buffSize x.object < ulBuffLen.toNat := by
  have hpair (pString : CString) (nValue : Int32) :
      buffSize (.pair pString (.float nValue)) ≤ pString.val.length + 40 := by
    have hfloat := printFloat_length_le nValue
    simp only [buffSize, printString, List.length_append, List.length_cons, List.length_nil]
    omega
  have htarget : stringTargetTemperature.val.length = 17 := rfl
  have hcooling : stringCoolingDeviation.val.length = 16 := rfl
  have hheating : stringHeatingDeviation.val.length = 16 := rfl
  have h₁ := hpair stringTargetTemperature x.target
  have h₂ := hpair stringCoolingDeviation (if x.ulMode = modeCooling then x.deviation else 0)
  have h₃ := hpair stringHeatingDeviation (if x.ulMode = modeHeating then x.deviation else 0)
  refine ⟨1000, ?_⟩
  rw [Told.object, Told.pairs, pairSlots, pairSlots, pairSlots, pairSlots, buffSize, buffSizeSlots,
    buffSizeSlots, buffSizeSlots, buffSizeSlots]
  simp only [List.length_cons, List.length_nil, Bool.false_eq_true, if_true, if_false]
  have hroom : (1000 : UInt32).toNat = 1000 := rfl
  omega

end Reports

section Results

variable {δ : Type} {d : Doubles δ} {parse : List Char → Option (Items δ)} {child : Child}
  {pBuff : List Char} {s : Controller} {line : Line} {pxJSON : Items δ} {x : Settings}

theorem isSome_of_hundredths {α : Type} {strtod : List Char → δ} {ofDouble : δ → α}
    {ofInteger : Int64 → α} {node : Node δ} {o : Option α}
    (h : hundredths strtod ofDouble ofInteger node = some o) : o.isSome = !node.isNull := by
  cases node <;> cases h <;> rfl

/-- Settings are there just when their keys are present. -/
theorem present_settings (h : settings d pxJSON = some x) :
    (Present pxJSON stringTargetTemperature ↔ x.target.isSome = true) ∧
      (Present pxJSON stringCoolingDeviation ↔ x.cooling.isSome = true) ∧
      (Present pxJSON stringHeatingDeviation ↔ x.heating.isSome = true) := by
  obtain ⟨target, htarget, h⟩ := Option.bind_eq_some_iff.mp h
  obtain ⟨cooling, hcooling, h⟩ := Option.bind_eq_some_iff.mp h
  obtain ⟨heating, hheating, h⟩ := Option.bind_eq_some_iff.mp h
  obtain rfl := Option.some.inj h
  simp only [Present, isSome_of_hundredths htarget, isSome_of_hundredths hcooling,
    isSome_of_hundredths hheating, Bool.not_eq_true', and_self]

theorem isSome_of_deviation (h : x.deviation ≠ 0) :
    x.cooling.isSome = true ∨ x.heating.isSome = true := by
  rw [Settings.deviation] at h
  cases hc : x.cooling with
  | some c => exact .inl rfl
  | none =>
    cases hh : x.heating with
    | some c => exact .inr rfl
    | none => simp [hc, hh] at h

/-- A call that is refused before its settings are used does nothing, and any other applies them. -/
theorem setChildConfig_cases (d : Doubles δ) (parse : List Char → Option (Items δ)) (child : Child)
    (pBuff : List Char) (s : Controller) :
    (∀ line, setChildConfig d parse line child pBuff s = (retError, ⟨s, [], []⟩)) ∨
      ∃ pxJSON x, parse pBuff = some pxJSON ∧ child.ctrl = true ∧ child.pParent = true ∧
        child.nCtrlID ≤ ctrlCount ∧ settings d pxJSON = some x := by
  cases hparse : parse pBuff with
  | none => exact .inl fun line => by rw [setChildConfig, hparse]
  | some pxJSON =>
    by_cases hchild : child.ctrl ∧ child.pParent
    · by_cases hn : child.nCtrlID > ctrlCount
      · exact .inl fun line => by rw [setChildConfig, hparse]; exact (if_pos hchild).trans (if_pos hn)
      · cases hx : settings d pxJSON with
        | none =>
          refine .inl fun line => ?_
          rw [setChildConfig, hparse]
          dsimp only
          rw [if_pos hchild, if_neg hn, hx]
        | some x => exact .inr ⟨pxJSON, x, rfl, hchild.1, hchild.2, UInt32.not_lt.mp hn, hx⟩
    · exact .inl fun line => by rw [setChildConfig, hparse]; exact if_neg hchild

theorem setChildConfig_eq (hparse : parse pBuff = some pxJSON) (hctrl : child.ctrl = true)
    (hparent : child.pParent = true) (hn : child.nCtrlID ≤ ctrlCount)
    (hx : settings d pxJSON = some x) (line : Line) :
    setChildConfig d parse line child pBuff s = apply line child.nCtrlID x ⟨s, [], []⟩ := by
  rw [setChildConfig, hparse]
  dsimp only
  rw [if_pos ⟨hctrl, hparent⟩, if_neg (UInt32.not_lt.mpr hn), hx]

/-- What is to be reported is what is wanted, where the deviation is one of whole tenths. -/
theorem Applied.wanted {n : UInt32} {t : Int32} {r : Run} (h : Applied s n x t r)
    (hn : n < ctrlCount) (hdev : x.deviation % 10 = 0) :
    (told s n).after n r.log = x.wanted s n t := by
  rw [h.after hn, Settings.wanted, (tenths_iff _).mpr hdev]
  rfl

theorem Sound.keeps (h : Sound d parse child pBuff s) : Keeps d parse child pBuff s := by
  rcases setChildConfig_cases d parse child pBuff s with
    hrefused | ⟨pxJSON, x, hparse, hctrl, hparent, hle, hx⟩
  · refine ⟨fun line i hi => ?_, fun line req hreq => ?_, fun line r _ hr => ?_⟩
    · rw [hrefused] at hi
      cases hi
    · rw [hrefused] at hreq
      cases hreq
    · rw [hrefused] at hr
      exact absurd (congrArg Prod.fst hr) retError_ne
  obtain ⟨hne, t, ht, hheld, hdev, hread⟩ := h pxJSON x hparse hctrl hparent hle hx
  have hn : child.nCtrlID < ctrlCount := UInt32.lt_of_le_of_ne hle hne
  obtain ⟨htarget, hcooling, hheating⟩ := present_settings hx
  have hwithin (line : Line) : Within child.nCtrlID (Asked pxJSON child.nCtrlID)
      (setChildConfig d parse line child pBuff s).2 := by
    rw [setChildConfig_eq hparse hctrl hparent hle hx]
    refine within_apply s (.inl ⟨rfl, htarget.mpr (by rw [ht]; rfl)⟩) fun hne => ?_
    have hpresent : Present pxJSON stringCoolingDeviation ∨ Present pxJSON stringHeatingDeviation :=
      (isSome_of_deviation hne).imp hcooling.mpr hheating.mpr
    exact ⟨.inr ⟨.inl rfl, hpresent⟩, .inr ⟨.inr rfl, hpresent⟩⟩
  refine ⟨fun line i hi => ?_, fun line req hreq => ?_, fun line r hworks hr => ?_⟩
  · rw [(hwithin line).accessed i hi]
    exact hn
  · exact ⟨pxJSON, hparse, (hwithin line).log req hreq⟩
  · obtain ⟨r', hr', happlied⟩ := apply_works hworks s child.nCtrlID x
    rw [setChildConfig_eq hparse hctrl hparent hle hx, hr'] at hr
    obtain rfl : r' = r := congrArg Prod.snd hr
    rw [ht, Option.getD_some] at happlied
    have htold : told r'.s child.nCtrlID = (told s child.nCtrlID).after child.nCtrlID r'.log := by
      rw [happlied.told_eq hn, happlied.after hn, (tenths_iff _).mpr hdev]
      congr 1
      split
      next hcur => exact (held_iff t).mpr (hheld hcur)
      next => rfl
    intro ulBuffLen hroom
    have hget := getChildConfig_eq hctrl hparent hn ulBuffLen r'.s
    rw [htold, if_neg (by omega)] at hget
    refine ⟨congrArg Prod.fst hget, congrArg Prod.snd hget, ?_⟩
    rw [decodes_iff_printable, printable_object, happlied.wanted hn hdev]
    exact hread

/-- Exchanges that succeed, with a target that is what the variable holds. -/
def answering (nTargetTemperature : Int32) : Line := ⟨true, 1, fun _ => true, nTargetTemperature, retOk⟩

theorem answering_succeeds (nTargetTemperature : Int32) : (answering nTargetTemperature).Succeeds :=
  ⟨rfl, (by decide : (1 : UInt32) ≠ 0), fun _ => rfl⟩

theorem exists_ne (t : Int32) : ∃ t' : Int32, t ≠ t' := by
  by_cases h : t = 0
  · exact ⟨1, by rw [h]; decide⟩
  · exact ⟨0, h⟩

theorem Keeps.sound (h : Keeps d parse child pBuff s) : Sound d parse child pBuff s := by
  intro pxJSON x hparse hctrl hparent hle hx
  have hrun (nTarget : Int32) := apply_works (answering_succeeds nTarget) s child.nCtrlID x
  simp only [← setChildConfig_eq (s := s) hparse hctrl hparent hle hx] at hrun
  have hn : child.nCtrlID < ctrlCount := by
    obtain ⟨r, hr, happlied⟩ := hrun 0
    have hbounded := h.bounded (answering 0)
    rw [hr] at hbounded
    exact hbounded _ happlied.accessed
  obtain ⟨h2, h3, -⟩ := ne_of_lt hn
  obtain ⟨t, ht⟩ : ∃ t, x.target = some t := by
    cases ht : x.target with
    | some t => exact ⟨t, rfl⟩
    | none =>
      -- the target that is written is whatever the variable holds
      obtain ⟨nTarget, hne⟩ := exists_ne (current s child.nCtrlID)
      obtain ⟨r, hr, happlied⟩ := hrun nTarget
      rw [ht] at happlied
      have happlied : Applied s child.nCtrlID x nTarget r := happlied
      have hasked := h.asked (answering nTarget)
      rw [hr] at hasked
      have hlog : (child.nCtrlID, nTarget / 10) ∈ r.log := by
        rw [happlied.log, if_pos hne]
        exact List.mem_append_left _ (List.mem_singleton_self _)
      obtain ⟨pxJSON', hparse', hask⟩ := hasked _ hlog
      obtain rfl : pxJSON = pxJSON' := Option.some.inj (hparse.symm.trans hparse')
      rcases hask with ⟨-, hpresent⟩ | ⟨hreg, -⟩
      · rw [(present_settings hx).1, ht] at hpresent
        cases hpresent
      · exact absurd hreg (by simp [h2, h3])
  obtain ⟨r, hr, happlied⟩ := hrun 0
  rw [ht, Option.getD_some] at happlied
  obtain ⟨ulBuffLen, hroom⟩ := exists_room ((told s child.nCtrlID).after child.nCtrlID r.log)
  obtain ⟨-, hobject, hdecodes⟩ := h.reported _ r (answering_succeeds 0) hr ulBuffLen hroom
  have hget := congrArg Prod.snd (getChildConfig_eq hctrl hparent hn ulBuffLen r.s)
  dsimp only at hget
  rw [hobject] at hget
  have hpairs : ((told s child.nCtrlID).after child.nCtrlID r.log).pairs =
      (told r.s child.nCtrlID).pairs := by
    split at hget
    · cases hget
    · exact object_inj (Option.some.inj hget)
  rw [happlied.after hn, happlied.told_eq hn] at hpairs
  simp only [Told.pairs, List.cons.injEq, Prod.mk.injEq, true_and, and_true] at hpairs
  obtain ⟨htarget, hcooling, hheating⟩ := hpairs
  have hdev : x.deviation % 10 = 0 := by
    by_cases hzero : x.deviation = 0
    · rw [hzero]
      rfl
    · rw [← tenths_iff]
      rw [if_pos hzero, if_pos hzero] at hcooling hheating
      rcases mode_of_deviation hzero (s.pOutputConfigs child.nCtrlID).ulMode with hmode | hmode
      · rwa [if_pos hmode, if_pos hmode] at hcooling
      · rwa [if_pos hmode, if_pos hmode] at hheating
  refine ⟨UInt32.ne_of_lt hn, t, ht, fun hcur => ?_, hdev, ?_⟩
  · rw [if_pos hcur, if_pos hcur] at htarget
    exact (held_iff t).mp htarget.symm
  · rw [decodes_iff_printable, printable_object, happlied.wanted hn hdev] at hdecodes
    exact hdecodes

theorem childConfig_keeps_iff (d : Doubles δ) (parse : List Char → Option (Items δ)) (child : Child)
    (pBuff : List Char) (s : Controller) :
    Keeps d parse child pBuff s ↔ Sound d parse child pBuff s := ⟨Keeps.sound, Sound.keeps⟩

def rationals : Doubles ℚ where
  strtod := Numerals.strtod
  int32 x := Int32.ofInt ((x * 100).num.tdiv (x * 100).den)
  uint32 x := UInt32.ofInt ((x * 100).num.tdiv (x * 100).den)

/-- A deviation of one degree, and no target. -/
def coolingText : List Char := "\x7b\"coolingDeviation\": 1\x7d".toList

def parseCooling (text : List Char) : Option (Items ℚ) :=
  if text = coolingText then some [(some "coolingDeviation".toList, .integer 1)] else none

/-- Both outputs are off, at 20 degrees. -/
def idle : Controller :=
  ⟨fun _ => ⟨.temperature, true, 0, 2000⟩, fun _ => ⟨modeOff, 0⟩, fun _ => 200⟩

/-- The target of the first output is written although the text has none. -/
theorem cooling_not_keeps : ¬ Keeps rationals parseCooling ⟨true, true, 6⟩ coolingText idle := by
  intro h
  obtain ⟨-, t, ht, -⟩ := h.sound _ ⟨none, some 100, none⟩ rfl rfl rfl (by decide) rfl
  cases ht

end Results

end EdgeNode.Obj.Fx3d
