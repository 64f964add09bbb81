import Mathlib.Data.List.Nodup
import Mathlib.Order.Nat
import Mathlib.Tactic.Common

/-! Forests given by the children of each node, and the traversals that enter a node before its
children and go on to these only where they got in. -/

namespace Forests

structure Forest (α : Type) where
  kids : α → List α
  height : α → Nat
  height_lt : ∀ p, ∀ c ∈ kids p, height c < height p
  parent_unique : ∀ {c p q}, c ∈ kids p → c ∈ kids q → p = q
  nodup : ∀ p, (kids p).Nodup

namespace Forest

variable {α σ : Type} (f : Forest α)

theorem induct {P : α → Prop} (h : ∀ o, (∀ c ∈ f.kids o, P c) → P o) (o : α) : P o := by
  generalize hn : f.height o = n
  induction n using Nat.strongRecOn generalizing o with
  | _ n ih =>
    subst hn
    exact h o fun c hc => ih (f.height c) (f.height_lt o c hc) c rfl

/-- The way down from a node to another leads through nodes that `P` holds of, both included. -/
inductive Down (P : α → Prop) : α → α → Prop
  | refl {o} (h : P o) : Down P o o
  | kid {o c x} (h : P o) (hc : c ∈ f.kids o) (hx : Down P c x) : Down P o x

def Below (o x : α) : Prop := ∃ c ∈ f.kids o, f.Down (fun _ => True) c x

variable {f}

theorem Down.mono {P Q : α → Prop} (hPQ : ∀ o, P o → Q o) {o x : α} (h : f.Down P o x) :
    f.Down Q o x := by
  induction h with
  | refl h => exact .refl (hPQ _ h)
  | kid h hc _ ih => exact .kid (hPQ _ h) hc ih

theorem down_iff {P : α → Prop} {o x : α} :
    f.Down P o x ↔ P o ∧ (x = o ∨ ∃ c ∈ f.kids o, f.Down P c x) := by
  constructor
  · rintro (h | ⟨h, hc, hx⟩)
    · exact ⟨h, .inl rfl⟩
    · exact ⟨h, .inr ⟨_, hc, hx⟩⟩
  · rintro ⟨h, rfl | ⟨c, hc, hx⟩⟩
    · exact .refl h
    · exact .kid h hc hx

theorem Down.height_le {P : α → Prop} {o x : α} (h : f.Down P o x) : f.height x ≤ f.height o := by
  induction h with
  | refl _ => exact le_rfl
  | kid _ hc _ ih => exact ih.trans (f.height_lt _ _ hc).le

theorem Below.height_lt {o x : α} (h : f.Below o x) : f.height x < f.height o := by
  obtain ⟨c, hc, hx⟩ := h
  exact hx.height_le.trans_lt (f.height_lt o c hc)

theorem Below.ne {o x : α} (h : f.Below o x) : x ≠ o := by
  rintro rfl
  exact lt_irrefl _ h.height_lt

theorem Down.eq_or_below {P : α → Prop} {o x : α} (h : f.Down P o x) : x = o ∨ f.Below o x := by
  cases h with
  | refl _ => exact .inl rfl
  | kid _ hc hx => exact .inr ⟨_, hc, hx.mono fun _ _ => trivial⟩

theorem Down.snoc {P : α → Prop} {o x c : α} (h : f.Down P o x) (hc : c ∈ f.kids x) (hP : P c) :
    f.Down P o c := by
  induction h with
  | refl h => exact .kid h hc (.refl hP)
  | kid h hk _ ih => exact .kid h hk (ih hc)

theorem Below.kid {o x c : α} (h : f.Below o x) (hc : c ∈ f.kids x) : f.Below o c := by
  obtain ⟨k, hk, hx⟩ := h
  exact ⟨k, hk, hx.snoc hc trivial⟩

theorem below_of_kid {o c : α} (hc : c ∈ f.kids o) : f.Below o c := ⟨c, hc, .refl trivial⟩

theorem Below.induct {o : α} {P : α → Prop} (hkid : ∀ c ∈ f.kids o, P c)
    (hstep : ∀ x, P x → ∀ c ∈ f.kids x, P c) {x : α} (h : f.Below o x) : P x := by
  obtain ⟨c, hc, hx⟩ := h
  have hPc := hkid c hc
  clear hc
  induction hx with
  | refl _ => exact hPc
  | kid _ hk _ ih => exact ih (hstep _ hPc _ hk)

theorem Down.parent {P : α → Prop} {o x : α} (h : f.Down P o x) :
    x = o ∨ ∃ p, f.Down P o p ∧ x ∈ f.kids p := by
  induction h with
  | refl _ => exact .inl rfl
  | kid h hc _ ih =>
    obtain rfl | ⟨p, hp, hx⟩ := ih
    · exact .inr ⟨_, .refl h, hc⟩
    · exact .inr ⟨p, .kid h hc hp, hx⟩

/-- Two ways down to a node are one the end of the other. -/
theorem Down.chain {P : α → Prop} {o p x : α} (ho : f.Down P o x) (hp : f.Down P p x) :
    f.Down P o p ∨ f.Down P p o := by
  induction ho with
  | refl _ => exact .inr hp
  | kid h hc _ ih =>
    obtain hcp | hpc := ih hp
    · exact .inl (.kid h hc hcp)
    · obtain rfl | ⟨q, hpq, hq⟩ := hpc.parent
      · exact .inl (.kid h hc hpc)
      · obtain rfl := f.parent_unique hq hc
        exact .inr hpq

/-- The trees of two children of a node are apart. -/
theorem kid_unique {P : α → Prop} {o c d x : α} (hc : c ∈ f.kids o) (hd : d ∈ f.kids o)
    (hcx : f.Down P c x) (hdx : f.Down P d x) : c = d := by
  have hup : ∀ a b, a ∈ f.kids o → b ∈ f.kids o → f.Down P a b → a = b := by
    intro a b ha hb hab
    obtain rfl | ⟨p, hp, hbp⟩ := hab.parent
    · rfl
    · obtain rfl := f.parent_unique hbp hb
      exact absurd (f.height_lt p a ha) (not_lt.mpr hp.height_le)
  obtain h | h := hcx.chain hdx
  · exact hup c d hc hd h
  · exact (hup d c hd hc h).symm

variable (f)

/-- A node and its descendants in the order of a traversal. -/
def preorder (o : α) : List α := o :: (f.kids o).attach.flatMap fun c => preorder c.1
termination_by f.height o
decreasing_by exact f.height_lt o c.1 c.2

theorem preorder_eq (o : α) : f.preorder o = o :: (f.kids o).flatMap f.preorder := by
  rw [preorder]
  simp only [List.flatMap_subtype, List.unattach_attach]

theorem mem_preorder {o x : α} : x ∈ f.preorder o ↔ x = o ∨ f.Below o x := by
  induction o using f.induct with
  | h o ih =>
    rw [preorder_eq, List.mem_cons, List.mem_flatMap]
    refine or_congr_right (exists_congr fun c => and_congr_right fun hc => ?_)
    rw [ih c hc, down_iff]
    simp [Below]

theorem nodup_preorder (o : α) : (f.preorder o).Nodup := by
  induction o using f.induct with
  | h o ih =>
    rw [preorder_eq, List.nodup_cons, List.nodup_flatMap]
    refine ⟨fun hm => ?_, ih, ?_⟩
    · obtain ⟨c, hc, ho⟩ := List.mem_flatMap.mp hm
      have hb : f.Below o o := ⟨c, hc, down_iff.mpr ⟨trivial, (f.mem_preorder.mp ho).imp_right id⟩⟩
      exact hb.ne rfl
    · refine (f.nodup o).pairwise_of_forall_ne fun c hc d hd hcd => ?_
      refine List.disjoint_left.mpr fun x hxc hxd => hcd ?_
      exact kid_unique (P := fun _ => True) hc hd (down_iff.mpr ⟨trivial, f.mem_preorder.mp hxc⟩)
        (down_iff.mpr ⟨trivial, f.mem_preorder.mp hxd⟩)

/-- A traversal with fuel, from the effect of entering a node and whether that succeeds. -/
def walkFuel (enter : σ → α → σ × Bool) : Nat → σ → α → σ × Bool
  | 0, s, _ => (s, false)
  | n + 1, s, o =>
    match enter s o with
    | (s, false) => (s, false)
    | (s, true) => ((f.kids o).foldl (fun s c => (walkFuel enter n s c).1) s, true)

def walk (enter : σ → α → σ × Bool) (s : σ) (o : α) : σ × Bool :=
  f.walkFuel enter (f.height o + 1) s o

/-- The traversals of a list of nodes one after the other, whatever each comes to. -/
def walkAll (enter : σ → α → σ × Bool) (s : σ) (os : List α) : σ :=
  os.foldl (fun s c => (f.walk enter s c).1) s

theorem walkFuel_eq_walk (enter : σ → α → σ × Bool) {n : Nat} {o : α} (h : f.height o < n) (s : σ) :
    f.walkFuel enter n s o = f.walk enter s o := by
  induction o using f.induct generalizing n s with
  | h o ih =>
    obtain ⟨m, rfl⟩ : ∃ m, n = m + 1 := ⟨n - 1, by omega⟩
    have hfold : ∀ m, f.height o ≤ m → ∀ s, (f.kids o).foldl (fun s c => (f.walkFuel enter m s c).1) s =
        (f.kids o).foldl (fun s c => (f.walk enter s c).1) s := by
      intro m hm s
      refine List.foldl_ext _ _ _ fun s c hc => ?_
      rw [ih c hc ((f.height_lt o c hc).trans_le hm)]
    simp only [walk, walkFuel]
    split
    · rfl
    · rw [hfold m (by omega), hfold (f.height o) le_rfl]

theorem walk_eq (enter : σ → α → σ × Bool) (s : σ) (o : α) :
    f.walk enter s o = match enter s o with
      | (s, false) => (s, false)
      | (s, true) => (f.walkAll enter s (f.kids o), true) := by
  rw [walk, walkFuel]
  split
  · rfl
  · refine congrArg (·, true) (List.foldl_ext _ _ _ fun s c hc => ?_)
    rw [f.walkFuel_eq_walk enter (f.height_lt o c hc)]

theorem walkAll_cons (enter : σ → α → σ × Bool) (s : σ) (o : α) (os : List α) :
    f.walkAll enter s (o :: os) = f.walkAll enter (f.walk enter s o).1 os := rfl

variable {f}

theorem walkAll_inv_of {enter : σ → α → σ × Bool} {I : σ → Prop} {os : List α}
    (h : ∀ o ∈ os, ∀ s, I s → I (f.walk enter s o).1) {s : σ} (hs : I s) : I (f.walkAll enter s os) := by
  induction os generalizing s with
  | nil => exact hs
  | cons o os ih =>
    exact ih (fun p hp => h p (List.mem_cons_of_mem _ hp)) (h o List.mem_cons_self s hs)

/-- What entering a node keeps, a traversal keeps. -/
theorem walk_inv {enter : σ → α → σ × Bool} {I : σ → Prop} (h : ∀ s o, I s → I (enter s o).1)
    {s : σ} (hs : I s) (o : α) : I (f.walk enter s o).1 := by
  induction o using f.induct generalizing s with
  | h o ih =>
    have hI := h s o hs
    rw [walk_eq]
    split
    · rename_i he
      rwa [he] at hI
    · rename_i he
      rw [he] at hI
      exact walkAll_inv_of (fun c hc s hs => ih c hc hs) hI

theorem walkAll_inv {enter : σ → α → σ × Bool} {I : σ → Prop} (h : ∀ s o, I s → I (enter s o).1)
    {s : σ} (hs : I s) (os : List α) : I (f.walkAll enter s os) :=
  walkAll_inv_of (I := I) (fun o _ _ hI => walk_inv h hI o) hs

end Forest

end Forests
