import EdgeNode.Mbtcp.MasterMatching

/-! Which register of the slave the requests of the master name. -/

namespace EdgeNode.Mbtcp.Master

open Runs

/-- The register address that the slave reads from a request. -/
def registerOf (pFrame : List UInt8) : UInt16 := ntohs (pFrame.getD 8 0) (pFrame.getD 9 0)

/-- The request of a task, from the frame to the checks of its answer. -/
def Task.request : Task → Option (Call × List UInt8)
  | .framed c pFrame | .waiting c pFrame | .received c pFrame _ => some (c, pFrame)
  | _ => none

def Framed {τ : Type} (cfg : Config) (s : State τ) : Prop :=
  ∀ t c pFrame, (s.tasks t).request = some (c, pFrame) →
    ∃ ulTransactionID, pFrame = requestFrame cfg ulTransactionID c

section Address

theorem ntohs_lowByte (w : UInt32) : ntohs (lowByte (w >>> 8)) (lowByte w) = w.toUInt16 := by
  have hw := w.toNat_lt
  have h8 : (8 : UInt32).toNat % 32 = 8 := rfl
  apply UInt16.toNat_inj.mp
  simp only [ntohs_toNat, lowByte, UInt8.toNat_ofNat', UInt32.toNat_shiftRight, h8,
    Nat.shiftRight_eq_div_pow, UInt32.toNat_toUInt16]
  omega

variable (cfg : Config) (ulTransactionID ulAddress ulCount : UInt32) (ulValue : UInt16)

theorem registerOf_write :
    registerOf (requestFrame cfg ulTransactionID (.write ulAddress ulValue)) =
      ulAddress.toUInt16 :=
  ntohs_lowByte ulAddress

theorem registerOf_read :
    registerOf (requestFrame cfg ulTransactionID (.read ulAddress ulCount)) =
      ulAddress.toUInt16 + cfg.usOffset := by
  have h : registerOf (requestFrame cfg ulTransactionID (.read ulAddress ulCount)) =
      (ulAddress + cfg.usOffset.toUInt32).toUInt16 := ntohs_lowByte _
  rw [h, UInt32.toUInt16_add, UInt16.toUInt16_toUInt32]

end Address

section Runs

variable {τ : Type} [DecidableEq τ] {cfg : Config} {s s' u w : State τ} {acts : List (Action τ)}

/-- A task that may take the place of `old` in a step. -/
def Task.Follows (cfg : Config) (old new : Task) : Prop :=
  ∀ c pFrame, new.request = some (c, pFrame) →
    old.request = some (c, pFrame) ∨
      ∃ ulTransactionID, pFrame = requestFrame cfg ulTransactionID c

theorem follows_of_none {old new : Task} (h : new.request = none) : old.Follows cfg new := by
  intro c pFrame hr
  rw [h] at hr
  cases hr

theorem follows_of_eq {old new : Task} (h : new.request = old.request) : old.Follows cfg new :=
  fun _ _ hr => .inl (h ▸ hr)

theorem Framed.setTask (h : Framed cfg s) {t : τ} {task : Task}
    (ht : (s.tasks t).Follows cfg task) : Framed cfg (s.setTask t task) := by
  intro t' c pFrame hr
  by_cases he : t' = t
  · subst he
    simp only [State.setTask, Function.update_self] at hr
    obtain hold | hnew := ht c pFrame hr
    · exact h t' c pFrame hold
    · exact hnew
  · simp only [State.setTask, Function.update_of_ne he] at hr
    exact h t' c pFrame hr

theorem Framed.leave (h : Framed cfg s) (t : τ) (c : Call) : Framed cfg (s.leave t c) := by
  cases c
  · exact h.setTask (follows_of_none rfl)
  · exact h.setTask (follows_of_none rfl)

theorem Framed.step {a : Action τ} (h : Framed cfg s) (hs : step cfg s a = some s') :
    Framed cfg s' := by
  cases a with
  | link up =>
    cases hs
    exact h
  | call t c =>
    obtain ⟨-, rfl⟩ := step_call hs
    exact h.setTask (follows_of_none rfl)
  | lock t =>
    obtain ⟨c, -, ⟨a, n, -, -, rfl⟩ | ⟨a, v, -, rfl⟩⟩ := step_lock hs
    · exact h.setTask (follows_of_none rfl)
    · exact h.setTask (follows_of_none rfl)
  | number t =>
    obtain ⟨c, -, ⟨-, rfl⟩ | ⟨-, rfl⟩⟩ := step_number hs
    · exact h.setTask (follows_of_none rfl)
    · exact h.leave t c
  | frame t =>
    obtain ⟨c, -, rfl⟩ := step_frame hs
    refine h.setTask fun c' pFrame hr => .inr ?_
    cases hr
    exact ⟨s.ulTransactionID, rfl⟩
  | send t sent broken =>
    obtain ⟨c, pFrame, ht, ⟨-, rfl⟩ | ⟨-, rfl⟩⟩ := step_send hs
    · exact h.setTask (follows_of_eq (by rw [ht]; rfl))
    · exact h.leave t c
  | poll t bytes =>
    obtain ⟨c, pFrame, ht, -, rfl | ⟨answers, rfl, -⟩⟩ := step_poll hs
    · exact h
    · exact h.setTask (follows_of_eq (by rw [ht]; rfl))
  | abort t broken =>
    obtain ⟨c, pFrame, -, rfl⟩ := step_abort hs
    exact h.leave t c
  | check t =>
    obtain ⟨c, pFrame, nReadLen, -, rfl | ⟨a, n, -, -, rfl⟩⟩ := step_check hs
    · exact h.leave t c
    · exact h.setTask (follows_of_none rfl)
  | extract t =>
    obtain ⟨pFrame, n, regs, -, ⟨-, rfl⟩ | ⟨-, rfl⟩⟩ := step_extract hs
    · exact h.setTask (follows_of_none rfl)
    · exact h.leave t (.read 0 n)

theorem framed_of_visits (hs : Start s) (hu : Visits (step cfg) s acts u) : Framed cfg u := by
  have hstart : Framed cfg s := by
    intro t c pFrame hr
    rw [hs.2.1 t] at hr
    cases hr
  exact inv_of_takes (G := fun _ _ => True) hstart (fun _ _ _ h _ => h.step) (fun _ _ _ => trivial) hu

/-- The offset is added to the address of a read only. -/
theorem sameRegister_iff (hs : Start s) (hu : Visits (step cfg) s acts u)
    (hw : Visits (step cfg) s acts w) {t r : τ} {ulAddress : UInt32} {ulValue : UInt16}
    {pWrite pRead : List UInt8} (hwrite : (u.tasks t).request = some (.write ulAddress ulValue, pWrite))
    (hread : (w.tasks r).request = some (.read ulAddress 1, pRead)) :
    registerOf pWrite = registerOf pRead ↔ cfg.usOffset = 0 := by
  obtain ⟨n, rfl⟩ := framed_of_visits hs hu t _ _ hwrite
  obtain ⟨m, rfl⟩ := framed_of_visits hs hw r _ _ hread
  rw [registerOf_write, registerOf_read, eq_comm]
  constructor
  · intro h
    have hzero : ulAddress.toUInt16 + cfg.usOffset = ulAddress.toUInt16 + 0 := by
      rw [h, UInt16.add_zero]
    exact UInt16.add_right_inj _ |>.mp hzero
  · intro h
    rw [h, UInt16.add_zero]

/-- A write of the value 9 to the register 5, up to its answer. -/
def writeFive : List (Action Unit) :=
  [.call () (.write 5 9), .lock (), .number (), .frame (), .send () true false]

def thenReadFive : List (Action Unit) :=
  [.poll () [0, 1, 0, 0, 0, 6, 1, 6, 0, 5, 0, 9], .check (), .call () (.read 5 1), .lock (),
    .number (), .frame ()]

/-- With an offset of one the register written is 5 and the register read is 6. -/
theorem other_register_read : ∃ u w pWrite pRead,
    Visits (step ⟨1, 1⟩) (rest Unit) (writeFive ++ thenReadFive) u ∧
      Visits (step ⟨1, 1⟩) (rest Unit) (writeFive ++ thenReadFive) w ∧
      (u.tasks ()).request = some (.write 5 9, pWrite) ∧
      (w.tasks ()).request = some (.read 5 1, pRead) ∧ registerOf pWrite = 5 ∧
      registerOf pRead = 6 :=
  ⟨_, _, _, _, ⟨writeFive, List.prefix_append _ _, rfl⟩, ⟨_, List.prefix_rfl, rfl⟩, rfl, rfl,
    by decide, by decide⟩

theorem same_register_read : ∃ u w pWrite pRead,
    Visits (step ⟨1, 0⟩) (rest Unit) (writeFive ++ thenReadFive) u ∧
      Visits (step ⟨1, 0⟩) (rest Unit) (writeFive ++ thenReadFive) w ∧
      (u.tasks ()).request = some (.write 5 9, pWrite) ∧
      (w.tasks ()).request = some (.read 5 1, pRead) ∧ registerOf pWrite = registerOf pRead := by
  have hu : Visits (step ⟨1, 0⟩) (rest Unit) (writeFive ++ thenReadFive) _ :=
    ⟨writeFive, List.prefix_append _ _, rfl⟩
  have hw : Visits (step ⟨1, 0⟩) (rest Unit) (writeFive ++ thenReadFive) _ := ⟨_, List.prefix_rfl, rfl⟩
  exact ⟨_, _, _, _, hu, hw, rfl, rfl,
    (sameRegister_iff (t := ()) (r := ()) (start_rest Unit) hu hw rfl rfl).mpr rfl⟩

end Runs

end EdgeNode.Mbtcp.Master
