import EdgeNode.Config.Defaults
import EdgeNode.Lib.Runs

/-! The unit with its flash: saves write by write, failing writes, power losses and boots. -/

namespace EdgeNode.Config

/-- The unit, the writes its save has before it, and as ghosts a clock of the writes, when each bank
was last written, the pools of which a save has completed, and the pools at risk: those whose last
write came back short, and those cleared while bank 0 could not be read. -/
structure Device where
  on : Bool
  ram : Ram
  plan : List (Kind × Bool)
  banks : Banks
  clock : Nat
  stamp : Kind → Bool → Nat
  saved : Kind → Bool
  atRisk : Kind → Bool

/-- How the write of a bank ends: whole, with a device that does not open, or short with the bank
left as it may be. -/
inductive Outcome where
  | done
  | noDevice
  | short (torn : ∀ k, Page (Body k))

inductive Action where
  | set (x : Setter)
  | save (force : Bool)
  | autoSave
  | clear
  | clearObject
  | write (o : Outcome)
  | powerLoss (torn : Option (∀ k, Page (Body k)))
  | boot

section Step

variable (crc : ∀ k, UInt32 → UInt32 → Body k → UInt32) (product : Product)

def Rejected {k : Kind} (p : Page (Body k)) : Prop := p.ulCRC ≠ pageCrc crc p

instance {k : Kind} (p : Page (Body k)) : Decidable (Rejected crc p) :=
  inferInstanceAs (Decidable (_ ≠ _))

/-- The page that the next write of the pool writes. -/
def written (s : Device) (k : Kind) : Page (Body k) := nextPage crc (s.ram.page k)

def writeDone (k : Kind) (second : Bool) (rest : List (Kind × Bool)) (s : Device) : Device :=
  let b := bankOf (written crc s k).nID
  { s with
    ram := endWrite k second (advance crc k s.ram)
    plan := rest
    banks := writeBank k b (written crc s k) s.banks
    clock := s.clock + 1
    stamp := Function.update s.stamp k (Function.update (s.stamp k) b s.clock)
    saved := if second then Function.update s.saved k true else s.saved
    atRisk := Function.update s.atRisk k false }

def writeSkipped (k : Kind) (second : Bool) (rest : List (Kind × Bool)) (s : Device) : Device :=
  { s with
    ram := endWrite k second (advance crc k s.ram)
    plan := rest
    saved := if second then Function.update s.saved k true else s.saved }

/-- A short write ends the save, with the identifier counted on and the flag still set. -/
def writeShort (k : Kind) (torn : Page (Body k)) (s : Device) : Device :=
  { s with
    ram := advance crc k s.ram
    plan := []
    banks := writeBank k (bankOf (written crc s k).nID) torn s.banks
    atRisk := Function.update s.atRisk k true }

/-- The power goes while a bank is written. -/
def writeCut (k : Kind) (torn : Page (Body k)) (s : Device) : Device :=
  { s with
    on := false, plan := []
    banks := writeBank k (bankOf (written crc s k).nID) torn s.banks }

def startClear (s : Device) : Device :=
  let ram := clear product s.ram
  { s with
    ram := ram, plan := savePlan true ram
    atRisk := fun k => !valid crc (s.banks k false) }

def startClearObject (s : Device) : Device :=
  let ram := clearObject product s.ram
  { s with
    ram := ram, plan := savePlan true ram
    atRisk := fun k => if k = .main then s.atRisk k else !valid crc (s.banks k false) }

def boot (s : Device) : Device :=
  let ram := initRam crc product s.banks
  { s with on := true, ram := ram, plan := savePlan false ram, atRisk := fun _ => false }

/-- What happens next. The lock of a save lets nothing else of the configuration run inside it. -/
def step (s : Device) : Action → Option Device
  | .set x => if s.on ∧ s.plan = [] then some { s with ram := x.apply product s.ram } else none
  | .save force =>
    if s.on ∧ s.plan = [] then some { s with plan := savePlan force s.ram } else none
  | .autoSave => if s.on ∧ s.plan = [] then some { s with plan := autoSavePlan s.ram } else none
  | .clear => if s.on ∧ s.plan = [] then some (startClear crc product s) else none
  | .clearObject => if s.on ∧ s.plan = [] then some (startClearObject crc product s) else none
  | .write o => match s.plan with
    | [] => none
    | (k, second) :: rest => match o with
      | .done => some (writeDone crc k second rest s)
      | .noDevice => some (writeSkipped crc k second rest s)
      | .short torn => if Rejected crc (torn k) then some (writeShort crc k (torn k) s) else none
  | .powerLoss none => if s.on then some { s with on := false, plan := [] } else none
  | .powerLoss (some torn) => match s.plan with
    | [] => none
    | (k, _) :: _ =>
      if Rejected crc (torn k) then some (writeCut crc k (torn k) s) else none
  | .boot => if s.on then none else some (boot crc product s)

/-- A unit that was never switched on: no bank holds a pool. -/
structure Start (s : Device) : Prop where
  off : s.on = false
  plan : s.plan = []
  blank : ∀ k b, valid crc (s.banks k b) = false
  saved : ∀ k, s.saved k = false

/-- The identifiers do not run out: a bank is written with one that `FTE_CFG_init` takes. -/
def Room (s : Device) : Action → Prop
  | .write _ | .powerLoss (some _) => ∀ w ∈ s.plan.head?, (s.ram.page w.1).nID.toNat < maxInt32
  | _ => True

instance (s : Device) : DecidablePred (Room s)
  | .write _ | .powerLoss (some _) =>
    inferInstanceAs (Decidable (∀ w ∈ s.plan.head?, (s.ram.page w.1).nID.toNat < maxInt32))
  | .powerLoss none | .set _ | .save _ | .autoSave | .clear | .clearObject | .boot =>
    .isTrue trivial

end Step

section Cases

variable {crc : ∀ k, UInt32 → UInt32 → Body k → UInt32} {product : Product}

/-- What a step can do: change the RAM between saves or start a save, clear, write a bank, or lose or
get back the power. -/
theorem step_cases {s t : Device} {a : Action} (h : step crc product s a = some t) :
    (s.on = true ∧ s.plan = [] ∧ ∃ r p, Keeps s.ram r ∧ (p = [] ∨ ∃ force, p = savePlan force r) ∧
      t = { s with ram := r, plan := p }) ∨
    (s.on = true ∧ s.plan = [] ∧ (a = .clear ∧ t = startClear crc product s ∨
      a = .clearObject ∧ t = startClearObject crc product s)) ∨
    (∃ k second rest, s.plan = (k, second) :: rest ∧
      (a = .write .done ∧ t = writeDone crc k second rest s ∨
      a = .write .noDevice ∧ t = writeSkipped crc k second rest s ∨
      ∃ torn, Rejected crc (torn k) ∧ (a = .write (.short torn) ∧ t = writeShort crc k (torn k) s ∨
        a = .powerLoss (some torn) ∧ t = writeCut crc k (torn k) s))) ∨
    (s.on = true ∧ a = .powerLoss none ∧ t = { s with on := false, plan := [] }) ∨
    (s.on = false ∧ a = .boot ∧ t = boot crc product s) := by
  have hsome : ∀ {c : Prop} [Decidable c] {u : Device},
      (if c then some u else none) = some t → c ∧ t = u := by
    intro c _ u hu
    split at hu
    · exact ⟨‹c›, (Option.some.inj hu).symm⟩
    · cases hu
  cases a with
  | set x =>
    obtain ⟨⟨hon, hp⟩, rfl⟩ := hsome h
    exact .inl ⟨hon, hp, _, s.plan, x.keeps product s.ram, .inl hp, rfl⟩
  | save force =>
    obtain ⟨⟨hon, hp⟩, rfl⟩ := hsome h
    exact .inl ⟨hon, hp, _, _, .refl _, .inr ⟨force, rfl⟩, rfl⟩
  | autoSave =>
    obtain ⟨⟨hon, hp⟩, rfl⟩ := hsome h
    refine .inl ⟨hon, hp, _, _, .refl _, ?_, rfl⟩
    unfold autoSavePlan
    split
    · exact .inr ⟨false, rfl⟩
    · exact .inl rfl
  | clear =>
    obtain ⟨⟨hon, hp⟩, ht⟩ := hsome h
    exact .inr (.inl ⟨hon, hp, .inl ⟨rfl, ht⟩⟩)
  | clearObject =>
    obtain ⟨⟨hon, hp⟩, ht⟩ := hsome h
    exact .inr (.inl ⟨hon, hp, .inr ⟨rfl, ht⟩⟩)
  | write o =>
    refine .inr (.inr (.inl ?_))
    cases hp : s.plan with
    | nil =>
      simp only [step, hp] at h
      cases h
    | cons w rest =>
      refine ⟨w.1, w.2, rest, rfl, ?_⟩
      simp only [step, hp] at h
      cases o with
      | done => exact .inl ⟨rfl, (Option.some.inj h).symm⟩
      | noDevice => exact .inr (.inl ⟨rfl, (Option.some.inj h).symm⟩)
      | short torn =>
        obtain ⟨hr, ht⟩ := hsome h
        exact .inr (.inr ⟨torn, hr, .inl ⟨rfl, ht⟩⟩)
  | powerLoss torn =>
    cases torn with
    | none =>
      obtain ⟨hon, ht⟩ := hsome h
      exact .inr (.inr (.inr (.inl ⟨hon, rfl, ht⟩)))
    | some torn =>
      refine .inr (.inr (.inl ?_))
      cases hp : s.plan with
      | nil =>
        simp only [step, hp] at h
        cases h
      | cons w rest =>
        simp only [step, hp] at h
        obtain ⟨hr, ht⟩ := hsome h
        exact ⟨w.1, w.2, rest, rfl, .inr (.inr ⟨torn, hr, .inr ⟨rfl, ht⟩⟩)⟩
  | boot =>
    refine .inr (.inr (.inr (.inr ?_)))
    simp only [step] at h
    split at h
    · cases h
    · rename_i hn
      exact ⟨by simpa using hn, rfl, (Option.some.inj h).symm⟩

end Cases

section Bare

def bareProduct : Product where
  pModel := [70, 84, 69]
  modelLength := 3
  locationMaxLen := 3
  objMaxCount := 1
  eventMaxCount := 1
  trapCount := 1
  keepAliveTimeMax := 10
  extLen _ := 0
  initDefaultExtConfig _ p := p
  pSystem := ⟨false, 0, 1, 1⟩
  pShell := ⟨[], [], 0⟩
  pNetwork := ⟨0, 1, 0, 0, ⟨0, [0], []⟩, []⟩
  pObjects := []
  pEvents := []

/-- A checksum in place of the CRC. -/
def checksum : ∀ k, UInt32 → UInt32 → Body k → UInt32 := fun _ ulTag nID _ => ulTag + nID + 1

def blankDevice : Device where
  on := false
  ram := ⟨zeroPage bareProduct, fun _ => false⟩
  plan := []
  banks k _ := zeroPage bareProduct k
  clock := 0
  stamp _ _ := 0
  saved _ := false
  atRisk _ := false

theorem start_blankDevice : Start checksum blankDevice where
  off := rfl
  plan := rfl
  blank k _ := by cases k <;> rfl
  saved _ := rfl

def torn : ∀ k, Page (Body k) := zeroPage bareProduct

/-- The first boot with its save, of the first and the last pool. -/
def firstBoot : List Action := .boot :: List.replicate 4 (.write .done)

end Bare

end EdgeNode.Config
