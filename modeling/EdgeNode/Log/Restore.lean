import EdgeNode.Lib.Runs
import EdgeNode.Log.Pool

/-! The log with its two flash banks: what `FTE_LOG_init` restores after a run of additions,
deletions, saves and boots. -/

namespace EdgeNode.Log

/-- A bank as it is read: a pool after its checksum. -/
structure Page where
  ulCRC : UInt32
  pool : Pool

/-- How the write of a bank ends: whole, with a device that does not open, or short. -/
inductive Outcome where
  | done
  | noDevice
  | short (torn : Page)

/-- How `FTE_LOG_init` goes after a reset: without its lock or its buffer, or with what it reads and
how its own save ends. -/
inductive Boot where
  | failed
  | started (readable : Bool) (o : Outcome)

/-- The log of the unit, the banks `flashx:log0` (`false`) and `flashx:log1`, and as a ghost the
records that the last write to bank 0 left there to be restored. -/
structure Node where
  xPool : Pool
  bPoolModified : Bool
  banks : Bool → Page
  kept : List FteLog

inductive Action where
  | addSystem (t : TimeStamp) (xMsg : UInt32)
  | addEvent (t : TimeStamp) (nOID ulLevel xType ulValue : UInt32)
  | del (ulCount : Nat)
  | save (o : Outcome)
  | boot (b : Boot)

def maxInt32 : UInt32 := 0x7FFFFFFF

section Step

variable (crc : Pool → UInt32)

def Accepted (p : Page) : Prop :=
  p.ulCRC = crc p.pool ∧ p.pool.ulTag = logTag ∧ p.pool.ulID ≤ maxInt32

instance (p : Page) : Decidable (Accepted crc p) := inferInstanceAs (Decidable (_ ∧ _))

/-- The banks that the loop of `FTE_LOG_init` reads: `nMTD < 1`. -/
def scanned : List Bool := [false]

def readBank (xPool : Pool) (p : Page) : Pool :=
  if Accepted crc p then if p.pool.ulID > xPool.ulID then p.pool else xPool else xPool

def restore (banks : Bool → Page) : Pool :=
  scanned.foldl (fun p b => readBank crc p (banks b)) zeroPool

/-- The pool that a save writes. -/
def nextPool (p : Pool) : Pool := { p with ulID := p.ulID + 1, ulTag := logTag }

def bankOf (ulID : UInt32) : Bool := ulID % 2 = 1

def Restorable (ulID : UInt32) : Prop := 0 < ulID ∧ ulID ≤ maxInt32

instance (ulID : UInt32) : Decidable (Restorable ulID) := inferInstanceAs (Decidable (_ ∧ _))

def writeBank (o : Outcome) (p : Pool) (s : Node) : Node :=
  let b := bankOf p.ulID
  match o with
  | .done =>
    { s with
      banks := Function.update s.banks b ⟨crc p, p⟩
      kept := if b then s.kept else if Restorable p.ulID then records p else [] }
  | .noDevice => s
  | .short torn =>
    { s with
      banks := Function.update s.banks b torn
      kept := if b then s.kept else [] }

def save (o : Outcome) (s : Node) : Node :=
  if s.bPoolModified then
    let p := nextPool s.xPool
    { writeBank crc o p s with xPool := p, bPoolModified := false }
  else s

/-- The pool as the loop over the banks leaves it. -/
def readPool (readable : Bool) (banks : Bool → Page) : Pool :=
  if readable then restore crc banks else zeroPool

def boot : Boot → Node → Node
  | .failed, s => { s with xPool := zeroPool, bPoolModified := false }
  | .started readable o, s =>
    let p := readPool crc readable s.banks
    if p.ulTag = logTag then { s with xPool := p, bPoolModified := false }
    else save crc o { s with xPool := p, bPoolModified := true }

/-- A short write leaves a page that fails its check. -/
def Outcome.Possible : Outcome → Prop
  | .short torn => torn.ulCRC ≠ crc torn.pool
  | _ => True

instance : DecidablePred (Outcome.Possible crc)
  | .done => .isTrue trivial
  | .noDevice => .isTrue trivial
  | .short torn => inferInstanceAs (Decidable (torn.ulCRC ≠ crc torn.pool))

def add (p : Pool) (s : Node) : Node := { s with xPool := p, bPoolModified := true }

def step (s : Node) : Action → Option Node
  | .addSystem t xMsg => some (add (addSystem s.xPool t xMsg) s)
  | .addEvent t nOID ulLevel xType ulValue =>
    some (add (addEvent s.xPool t nOID ulLevel xType ulValue) s)
  | .del ulCount => some { s with xPool := (del s.xPool ulCount).1 }
  | .save o => if o.Possible crc then some (save crc o s) else none
  | .boot .failed => some (boot crc .failed s)
  | .boot (.started readable o) =>
    if o.Possible crc then some (boot crc (.started readable o) s) else none

/-- The unit before its first boot, with the flash as it is. -/
structure Start (s : Node) : Prop where
  xPool : s.xPool = zeroPool
  bPoolModified : s.bPoolModified = false
  sound : Sound (restore crc s.banks)
  kept : s.kept = records (restore crc s.banks)

/-- The ghost says what bank 0 holds, and no pool in memory or in bank 0 is out of order. -/
structure Inv (s : Node) : Prop where
  sound : Sound s.xPool
  restored : Sound (restore crc s.banks)
  kept : s.kept = records (restore crc s.banks)

/-- After a whole save and a boot that reads its device, the log shows what it showed before. -/
def Restores (o : Outcome) (s : Node) : Prop :=
  let after := (boot crc (.started true o) (save crc .done s)).xPool
  after.ulCount = s.xPool.ulCount ∧ ∀ n, getAt after n = getAt s.xPool n

/-- A save that writes bank 0 writes an identifier that the boot takes, or no records; one that
does not leaves in bank 0 the records of the log as they are. -/
def Covered (s : Node) : Prop :=
  if s.bPoolModified ∧ bankOf (s.xPool.ulID + 1) = false then
    Restorable (s.xPool.ulID + 1) ∨ records s.xPool = []
  else s.kept = records s.xPool

instance : DecidablePred Covered := fun s => by
  unfold Covered
  infer_instance

variable {crc}

theorem restore_eq (banks : Bool → Page) : restore crc banks = readBank crc zeroPool (banks false) :=
  rfl

theorem restore_update_true (banks : Bool → Page) (p : Page) :
    restore crc (Function.update banks true p) = restore crc banks := by
  rw [restore_eq, restore_eq, Function.update_of_ne (by decide)]

theorem restore_short (banks : Bool → Page) {p : Page} (h : p.ulCRC ≠ crc p.pool) :
    restore crc (Function.update banks false p) = zeroPool := by
  rw [restore_eq, Function.update_self, readBank, if_neg fun ha => h ha.1]

theorem restore_written (banks : Bool → Page) (p : Pool) :
    restore crc (Function.update banks false ⟨crc (nextPool p), nextPool p⟩) =
      if Restorable (p.ulID + 1) then nextPool p else zeroPool := by
  rw [restore_eq, Function.update_self, readBank]
  by_cases hm : p.ulID + 1 ≤ maxInt32
  · rw [if_pos ⟨rfl, rfl, hm⟩]
    apply if_congr _ rfl rfl
    exact ⟨fun h => ⟨h, hm⟩, fun h => h.1⟩
  · rw [if_neg fun h => hm h.2.2, if_neg fun h => hm h.2]

@[simp] theorem nextPool_ulID (p : Pool) : (nextPool p).ulID = p.ulID + 1 := rfl

@[simp] theorem records_nextPool (p : Pool) : records (nextPool p) = records p := rfl

theorem Sound.nextPool {p : Pool} (h : Sound p) : Sound (nextPool p) :=
  ⟨h.count_lt, h.head_lt, h.tail_eq⟩

theorem Inv.writeBank {s : Node} (h : Inv crc s) {o : Outcome} (ho : o.Possible crc) :
    Inv crc (writeBank crc o (Log.nextPool s.xPool) s) := by
  cases hb : bankOf (s.xPool.ulID + 1) with
  | true =>
    have hr : ∀ p, restore crc (Function.update s.banks true p) = restore crc s.banks :=
      restore_update_true s.banks
    cases o with
    | noDevice => exact h
    | done =>
      exact ⟨h.sound, by simpa [Log.writeBank, hb, hr] using h.restored,
        by simpa [Log.writeBank, hb, hr] using h.kept⟩
    | short torn =>
      exact ⟨h.sound, by simpa [Log.writeBank, hb, hr] using h.restored,
        by simpa [Log.writeBank, hb, hr] using h.kept⟩
  | false =>
    cases o with
    | noDevice => exact h
    | done =>
      have hr := @restore_written crc s.banks s.xPool
      by_cases hid : Restorable (s.xPool.ulID + 1)
      · rw [if_pos hid] at hr
        exact ⟨h.sound, by simpa [Log.writeBank, hb, hr] using h.sound.nextPool,
          by simp [Log.writeBank, hb, hid, hr]⟩
      · rw [if_neg hid] at hr
        exact ⟨h.sound, by simpa [Log.writeBank, hb, hr] using sound_zeroPool,
          by simp [Log.writeBank, hb, hid, hr]⟩
    | short torn =>
      have hr := @restore_short crc s.banks _ ho
      exact ⟨h.sound, by simpa [Log.writeBank, hb, hr] using sound_zeroPool,
        by simp [Log.writeBank, hb, hr]⟩

/-- A save keeps the records in memory, whatever becomes of the write. -/
theorem save_records (o : Outcome) (s : Node) :
    records (save crc o s).xPool = records s.xPool := by
  rw [save]
  split
  next => exact records_nextPool s.xPool
  next => rfl

theorem Inv.save {s : Node} (h : Inv crc s) {o : Outcome} (ho : o.Possible crc) :
    Inv crc (save crc o s) := by
  rw [Log.save]
  split
  next =>
    have hw := h.writeBank ho
    exact ⟨h.sound.nextPool, hw.restored, hw.kept⟩
  next => exact h

theorem Inv.boot {s : Node} (h : Inv crc s) {o : Outcome} (ho : o.Possible crc) (readable : Bool) :
    Inv crc (boot crc (.started readable o) s) := by
  have hp : Sound (readPool crc readable s.banks) := by
    cases readable with
    | true => exact h.restored
    | false => exact sound_zeroPool
  rw [Log.boot]
  split
  next => exact ⟨hp, h.restored, h.kept⟩
  next =>
    have hi : Inv crc { s with
        xPool := readPool crc readable s.banks, bPoolModified := true } :=
      ⟨hp, h.restored, h.kept⟩
    exact hi.save ho

theorem Start.inv {s : Node} (h : Start crc s) : Inv crc s :=
  ⟨by rw [h.xPool]; exact sound_zeroPool, h.sound, h.kept⟩

theorem Inv.step {s t : Node} {a : Action} (h : Inv crc s) (hst : step crc s a = some t) :
    Inv crc t := by
  cases a with
  | addSystem time xMsg =>
    cases hst
    exact ⟨h.sound.store _, h.restored, h.kept⟩
  | addEvent time nOID ulLevel xType ulValue =>
    cases hst
    exact ⟨h.sound.store _, h.restored, h.kept⟩
  | del ulCount =>
    cases hst
    exact ⟨h.sound.del ulCount, h.restored, h.kept⟩
  | save o =>
    obtain ⟨ho, he⟩ := Option.ite_none_right_eq_some.mp hst
    cases he
    exact h.save ho
  | boot b =>
    cases b with
    | failed =>
      cases hst
      exact ⟨sound_zeroPool, h.restored, h.kept⟩
    | started readable o =>
      obtain ⟨ho, he⟩ := Option.ite_none_right_eq_some.mp hst
      cases he
      exact h.boot ho readable

theorem Inv.exec {s t : Node} {acts : List Action} (h : Inv crc s)
    (hst : Runs.exec (Log.step crc) acts s = some t) : Inv crc t :=
  Runs.inv_of_takes (G := fun _ _ => True) h (fun _ _ _ hu _ hs => hu.step hs)
    (fun _ _ _ => trivial) ⟨acts, List.prefix_rfl, hst⟩

/-- A boot that reads its device shows what bank 0 holds. -/
theorem records_boot {s : Node} (h : Inv crc s) (o : Outcome) :
    records (boot crc (.started true o) s).xPool = s.kept := by
  rw [boot, h.kept]
  split
  next => rfl
  next => exact save_records o _

theorem save_kept (s : Node) : (save crc .done s).kept =
    if s.bPoolModified ∧ bankOf (s.xPool.ulID + 1) = false then
      if Restorable (s.xPool.ulID + 1) then records s.xPool else []
    else s.kept := by
  rw [save]
  cases hm : s.bPoolModified with
  | false => simp
  | true =>
    cases hb : bankOf (s.xPool.ulID + 1) with
    | true => simp [writeBank, hb]
    | false =>
      simp only [writeBank, nextPool_ulID, hb, if_true, and_self, Bool.false_eq_true, if_false]
      rfl

/-- What an action makes of the records that the log shows, where it is not a boot. -/
def effect (p : Pool) (l : List FteLog) : Action → List FteLog
  | .addSystem t xMsg => push l (systemLog p t xMsg)
  | .addEvent t nOID ulLevel xType ulValue => push l (eventLog t nOID ulLevel xType ulValue)
  | .del ulCount => l.drop ulCount
  | _ => l

theorem records_step {s t : Node} {a : Action} (h : Inv crc s) (hst : step crc s a = some t)
    (ha : ∀ b, a ≠ .boot b) : records t.xPool = effect s.xPool (records s.xPool) a := by
  cases a with
  | addSystem time xMsg =>
    cases hst
    exact records_store h.sound _
  | addEvent time nOID ulLevel xType ulValue =>
    cases hst
    exact records_store h.sound _
  | del ulCount =>
    cases hst
    exact records_del ulCount
  | save o =>
    obtain ⟨-, he⟩ := Option.ite_none_right_eq_some.mp hst
    cases he
    exact save_records o s
  | boot b => exact absurd rfl (ha b)

/-- Between two boots the log is a bounded queue: a run of deletions and saves takes the oldest
records away, and nothing else. -/
theorem records_exec_of_dels {s u : Node} {acts : List Action} (h : Inv crc s)
    (hacts : ∀ a ∈ acts, (∃ n, a = .del n) ∨ ∃ o, a = .save o)
    (hu : Runs.exec (step crc) acts s = some u) : records u.xPool <:+ records s.xPool := by
  induction acts generalizing s with
  | nil =>
    cases hu
    exact List.suffix_rfl
  | cons a acts ih =>
    rw [Runs.exec_cons] at hu
    obtain ⟨t, ht, hu⟩ := Option.bind_eq_some_iff.mp hu
    have ha := hacts a (by simp)
    have hr := ih (h.step ht) (fun b hb => hacts b (by simp [hb])) hu
    have hst := records_step h ht (by rintro b rfl; simp at ha)
    rw [hst] at hr
    obtain ⟨n, rfl⟩ | ⟨o, rfl⟩ := ha
    · exact hr.trans (List.drop_suffix n _)
    · exact hr

/-- The records come back exactly when the save covers them. -/
theorem restores_iff_covered {s u : Node} {acts : List Action} (o : Outcome) (hs : Start crc s)
    (hu : Runs.exec (step crc) acts s = some u) : Restores crc o u ↔ Covered u := by
  have hi : Inv crc (save crc .done u) := (hs.inv.exec hu).save trivial
  rw [Restores, ← records_eq_iff, records_boot hi, save_kept, Covered]
  split
  next =>
    by_cases hid : Restorable (u.xPool.ulID + 1)
    · rw [if_pos hid]
      exact ⟨fun _ => Or.inl hid, fun _ => rfl⟩
    · rw [if_neg hid, eq_comm]
      exact ⟨Or.inr, fun h => h.resolve_left hid⟩
  next => rfl

end Step

section Runs

/-- A checksum that tells an erased page from a written one. -/
def tagCrc (p : Pool) : UInt32 := p.ulTag + p.ulID

/-- A unit with two erased banks. -/
def freshNode : Node where
  xPool := zeroPool
  bPoolModified := false
  banks := fun _ => ⟨0xFFFFFFFF, { zeroPool with ulTag := 0xFFFFFFFF, ulID := 0xFFFFFFFF }⟩
  kept := []

theorem start_freshNode : Start tagCrc freshNode := by
  have hr : restore tagCrc freshNode.banks = zeroPool := by
    rw [restore_eq, readBank, if_neg (by decide)]
  exact ⟨rfl, rfl, hr ▸ sound_zeroPool, by rw [hr]; rfl⟩

/-- The second save of a new unit goes to bank 0. -/
def savedOnce : List Action := [.boot (.started true .done), .addSystem ⟨1, 0⟩ 0]

/-- The third one goes to bank 1, which no boot reads. -/
def savedTwice : List Action := savedOnce ++ [.save .done, .addSystem ⟨2, 0⟩ 0]

theorem restores_savedOnce : ∃ u, Runs.exec (step tagCrc) savedOnce freshNode = some u ∧
    Restores tagCrc .done u :=
  ⟨_, rfl, (@restores_iff_covered tagCrc freshNode _ savedOnce .done start_freshNode rfl).mpr
    (by decide)⟩

theorem not_restores_savedTwice : ¬ ∀ (s u : Node) (acts : List Action) (o : Outcome),
    Start tagCrc s → Runs.exec (step tagCrc) acts s = some u → Restores tagCrc o u := by
  intro h
  obtain ⟨hc, -⟩ := h freshNode _ savedTwice .done start_freshNode rfl
  revert hc
  decide

end Runs

end EdgeNode.Log
