import Mathlib.Data.List.Basic
import Mathlib.Tactic.Common

/-! Programs that read one buffer, write another and act on a state, each run
with its footprint: the indices it reads and the bytes it writes where. -/

namespace BufferAccess

structure Run (σ α : Type) where
  val : α
  state : σ
  reads : List Nat
  writes : List (Nat × UInt8)

/-- The first argument is the memory at the input pointer, past the end of the buffer included. -/
def Access (σ α : Type) := (Nat → UInt8) → σ → Run σ α

instance {σ : Type} : Monad (Access σ) where
  pure a := fun _ s => ⟨a, s, [], []⟩
  bind p f := fun mem s =>
    let r := p mem s
    let t := f r.val mem r.state
    ⟨t.val, t.state, r.reads ++ t.reads, r.writes ++ t.writes⟩

variable {σ α β : Type} {mem : Nat → UInt8} {s : σ} {n m : Nat}

def peek (i : Nat) : Access σ UInt8 := fun mem s => ⟨mem i, s, [i], []⟩

def poke (i : Nat) (b : UInt8) : Access σ Unit := fun _ s => ⟨(), s, [], [(i, b)]⟩

def call (f : σ → α × σ) : Access σ α := fun _ s => ⟨(f s).1, (f s).2, [], []⟩

def peekBytes (i : Nat) : Nat → Access σ (List UInt8)
  | 0 => pure []
  | k + 1 => do
    let b ← peek i
    let bs ← peekBytes (i + 1) k
    pure (b :: bs)

def pokeBytes (i : Nat) : List UInt8 → Access σ Unit
  | [] => pure ()
  | b :: bs => do
    poke i b
    pokeBytes (i + 1) bs

def bytesAt (mem : Nat → UInt8) (i : Nat) : Nat → List UInt8
  | 0 => []
  | k + 1 => mem i :: bytesAt mem (i + 1) k

@[simp] theorem bytesAt_length (i k : Nat) : (bytesAt mem i k).length = k := by
  induction k generalizing i with
  | zero => rfl
  | succ k ih => simp [bytesAt, ih]

/-- Every access of the run stays below the two buffer lengths, and `Q` holds of its result. -/
def Safe (n m : Nat) (p : Access σ α) (Q : α → σ → Prop) (mem : Nat → UInt8) (s : σ) : Prop :=
  (∀ i ∈ (p mem s).reads, i < n) ∧ (∀ w ∈ (p mem s).writes, w.1 < m) ∧
    Q (p mem s).val (p mem s).state

variable {Q : α → σ → Prop}

@[simp] theorem safe_pure (a : α) : Safe n m (pure a : Access σ α) Q mem s ↔ Q a s := by
  simp [Safe, pure]

@[simp] theorem safe_bind (p : Access σ α) (f : α → Access σ β) (Q : β → σ → Prop) :
    Safe n m (p >>= f) Q mem s ↔ Safe n m p (fun a t => Safe n m (f a) Q mem t) mem s := by
  simp only [Safe, bind, List.mem_append, or_imp, forall_and]
  tauto

@[simp] theorem safe_ite (c : Prop) [Decidable c] (p q : Access σ α) :
    Safe n m (if c then p else q) Q mem s ↔
      (c → Safe n m p Q mem s) ∧ (¬c → Safe n m q Q mem s) := by
  by_cases h : c <;> simp [h]

@[simp] theorem safe_peek (i : Nat) (Q : UInt8 → σ → Prop) :
    Safe n m (peek i) Q mem s ↔ i < n ∧ Q (mem i) s := by
  simp [Safe, peek]

@[simp] theorem safe_poke (i : Nat) (b : UInt8) (Q : Unit → σ → Prop) :
    Safe n m (poke i b) Q mem s ↔ i < m ∧ Q () s := by
  simp [Safe, poke]

@[simp] theorem safe_call (f : σ → α × σ) : Safe n m (call f) Q mem s ↔ Q (f s).1 (f s).2 := by
  simp [Safe, call]

@[simp] theorem safe_peekBytes (i k : Nat) (Q : List UInt8 → σ → Prop) :
    Safe n m (peekBytes i k) Q mem s ↔ (k = 0 ∨ i + k ≤ n) ∧ Q (bytesAt mem i k) s := by
  induction k generalizing i Q with
  | zero => simp [peekBytes, bytesAt]
  | succ k ih =>
    simp only [peekBytes, safe_bind, safe_peek, ih, safe_pure, bytesAt]
    constructor
    · rintro ⟨hi, hk, hQ⟩
      exact ⟨Or.inr (by omega), hQ⟩
    · rintro ⟨hk, hQ⟩
      exact ⟨by omega, by omega, hQ⟩

@[simp] theorem safe_pokeBytes (i : Nat) (bs : List UInt8) (Q : Unit → σ → Prop) :
    Safe n m (pokeBytes i bs) Q mem s ↔ (bs = [] ∨ i + bs.length ≤ m) ∧ Q () s := by
  induction bs generalizing i with
  | nil => simp [pokeBytes]
  | cons b bs ih =>
    simp only [pokeBytes, safe_bind, safe_poke, ih, List.length_cons, reduceCtorEq, false_or]
    constructor
    · rintro ⟨hi, hb | hb, hQ⟩
      · exact ⟨by simp [hb]; omega, hQ⟩
      · exact ⟨by omega, hQ⟩
    · rintro ⟨hi, hQ⟩
      exact ⟨by omega, Or.inr (by omega), hQ⟩

theorem Safe.imp {p : Access σ α} {Q' : α → σ → Prop} (h : Safe n m p Q mem s)
    (hQ : ∀ a t, Q a t → Q' a t) : Safe n m p Q' mem s :=
  ⟨h.1, h.2.1, hQ _ _ h.2.2⟩

/-- `Q` holds of the result of the run, of its state and of what it wrote. -/
def Yields (p : Access σ α) (Q : α → σ → List (Nat × UInt8) → Prop) (mem : Nat → UInt8) (s : σ) :
    Prop :=
  Q (p mem s).val (p mem s).state (p mem s).writes

/-- The writes of `bs` from index `i` on. -/
def spread (i : Nat) : List UInt8 → List (Nat × UInt8)
  | [] => []
  | b :: bs => (i, b) :: spread (i + 1) bs

/-- What the writes leave at an index; the last one stays. -/
def output : List (Nat × UInt8) → Nat → Option UInt8
  | [], _ => none
  | w :: ws, i => (output ws i).or (if w.1 = i then some w.2 else none)

/-- The writes leave `bs` at the start of the buffer. -/
def Holds (ws : List (Nat × UInt8)) (bs : List UInt8) : Prop :=
  ∀ i < bs.length, output ws i = bs[i]?

section Yields

variable {Q : α → σ → List (Nat × UInt8) → Prop}

@[simp] theorem yields_pure (a : α) : Yields (pure a : Access σ α) Q mem s ↔ Q a s [] := Iff.rfl

@[simp] theorem yields_bind (p : Access σ α) (f : α → Access σ β)
    (Q : β → σ → List (Nat × UInt8) → Prop) :
    Yields (p >>= f) Q mem s ↔
      Yields p (fun a t ws => Yields (f a) (fun b u ws' => Q b u (ws ++ ws')) mem t) mem s := Iff.rfl

@[simp] theorem yields_ite (c : Prop) [Decidable c] (p q : Access σ α) :
    Yields (if c then p else q) Q mem s ↔
      (c → Yields p Q mem s) ∧ (¬c → Yields q Q mem s) := by
  by_cases h : c <;> simp [h]

@[simp] theorem yields_peek (i : Nat) (Q : UInt8 → σ → List (Nat × UInt8) → Prop) :
    Yields (peek i) Q mem s ↔ Q (mem i) s [] := Iff.rfl

@[simp] theorem yields_poke (i : Nat) (b : UInt8) (Q : Unit → σ → List (Nat × UInt8) → Prop) :
    Yields (poke i b) Q mem s ↔ Q () s [(i, b)] := Iff.rfl

@[simp] theorem yields_call (f : σ → α × σ) :
    Yields (call f) Q mem s ↔ Q (f s).1 (f s).2 [] := Iff.rfl

@[simp] theorem yields_peekBytes (i k : Nat)
    (Q : List UInt8 → σ → List (Nat × UInt8) → Prop) :
    Yields (peekBytes i k) Q mem s ↔ Q (bytesAt mem i k) s [] := by
  induction k generalizing i Q with
  | zero => simp [peekBytes, bytesAt]
  | succ k ih => simp [peekBytes, bytesAt, ih]

@[simp] theorem yields_pokeBytes (i : Nat) (bs : List UInt8)
    (Q : Unit → σ → List (Nat × UInt8) → Prop) :
    Yields (pokeBytes i bs) Q mem s ↔ Q () s (spread i bs) := by
  induction bs generalizing i Q with
  | nil => simp [pokeBytes, spread]
  | cons b bs ih => simp [pokeBytes, spread, ih]

theorem output_spread (i j : Nat) (bs : List UInt8) :
    output (spread i bs) j = if i ≤ j then bs[j - i]? else none := by
  induction bs generalizing i with
  | nil => simp [spread, output]
  | cons b bs ih =>
    rw [spread, output, ih]
    by_cases hij : i = j
    · subst hij
      rw [if_neg (Nat.not_succ_le_self i)]
      simp
    · by_cases hle : i ≤ j
      · have hlt : i + 1 ≤ j := by omega
        have hsub : j - i = j - (i + 1) + 1 := by omega
        simp [hij, hle, hlt, hsub]
      · have hlt : ¬ i + 1 ≤ j := by omega
        simp [hij, hle, hlt]

/-- A frame written from the start of the buffer on is what the buffer holds, and nothing else of
that length. -/
theorem holds_spread_iff {bs cs : List UInt8} (h : bs.length = cs.length) :
    Holds (spread 0 bs) cs ↔ bs = cs := by
  constructor
  · intro ho
    apply List.ext_getElem? fun i => ?_
    by_cases hi : i < cs.length
    · have hoi := ho i hi
      rw [output_spread] at hoi
      simpa using hoi
    · rw [List.getElem?_eq_none (by omega), List.getElem?_eq_none (by omega)]
  · rintro rfl i hi
    rw [output_spread]
    simp

end Yields

section Projects

variable {τ : Type} {f : σ → τ}

/-- `q` does on the image of a state what `p` does on the state. -/
def Projects (f : σ → τ) (mem : Nat → UInt8) (p : Access σ α) (q : Access τ α) : Prop :=
  ∀ s, q mem (f s) = ⟨(p mem s).val, f (p mem s).state, (p mem s).reads, (p mem s).writes⟩

theorem projects_pure (a : α) : Projects f mem (pure a) (pure a) := fun _ => rfl

theorem projects_peek (i : Nat) : Projects f mem (peek i) (peek i) := fun _ => rfl

theorem projects_poke (i : Nat) (b : UInt8) : Projects f mem (poke i b) (poke i b) := fun _ => rfl

theorem projects_call {g : σ → α × σ} {h : τ → α × τ} (hg : ∀ s, h (f s) = ((g s).1, f (g s).2)) :
    Projects f mem (call g) (call h) := by
  intro s
  simp [call, hg s]

theorem projects_bind {p : Access σ α} {q : Access τ α} {g : α → Access σ β} {h : α → Access τ β}
    (hp : Projects f mem p q) (hg : ∀ a, Projects f mem (g a) (h a)) :
    Projects f mem (p >>= g) (q >>= h) := by
  intro s
  change Run.mk ((h (q mem (f s)).val) mem (q mem (f s)).state).val _ _ _ = _
  rw [hp s]
  dsimp only
  rw [hg (p mem s).val (p mem s).state]
  rfl

/-- The continuation of a read has only the byte that stands there. -/
theorem projects_bind_peek {i : Nat} {g : UInt8 → Access σ β} {h : UInt8 → Access τ β}
    (hg : Projects f mem (g (mem i)) (h (mem i))) :
    Projects f mem (peek i >>= g) (peek i >>= h) := by
  intro s
  have hs := hg s
  change Run.mk (h (mem i) mem (f s)).val _ _ _ = _
  dsimp only [peek]
  rw [hs]
  rfl

theorem projects_ite {c : Prop} [Decidable c] {p p' : Access σ α} {q q' : Access τ α}
    (ht : Projects f mem p q) (he : Projects f mem p' q') :
    Projects f mem (if c then p else p') (if c then q else q') := by
  split
  · exact ht
  · exact he

theorem projects_peekBytes (i k : Nat) : Projects f mem (peekBytes i k) (peekBytes i k) := by
  induction k generalizing i with
  | zero => exact projects_pure []
  | succ k ih =>
    exact projects_bind (projects_peek i) fun b =>
      projects_bind (ih (i + 1)) fun bs => projects_pure (b :: bs)

theorem projects_pokeBytes (i : Nat) (bs : List UInt8) :
    Projects f mem (pokeBytes i bs) (pokeBytes i bs) := by
  induction bs generalizing i with
  | nil => exact projects_pure ()
  | cons b bs ih => exact projects_bind (projects_poke i b) fun _ => ih (i + 1)

end Projects

end BufferAccess
