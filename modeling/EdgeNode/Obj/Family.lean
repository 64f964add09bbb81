import EdgeNode.Lib.ExactLists
import EdgeNode.Obj.World

/-! When the links between sensor units and their interface objects stay mutual and live. -/

namespace EdgeNode.Obj.World

open Runs ExactLists

variable {ο ε : Type}

/-- There is a live interface object with the parent and the identifier. -/
def Kid (w : World ο ε) (p : ο) (nID : UInt32) : Prop :=
  ∃ c e, w.objects c = some e ∧ e.desc = .ifce ∧ e.pParent = some p ∧ e.nID = nID

/-- Every interface object has a live parent, and every sensor unit lists the identifiers of those
whose parent it is, each once. -/
structure Family (w : World ο ε) : Prop where
  parent : ∀ c e, w.objects c = some e → e.desc = .ifce →
    ∃ p, e.pParent = some p ∧ (w.objects p).isSome
  children : ∀ p u, w.unit p = some u → Exact u.xChildList (w.Kid p)

/-- What the links have of a live object. -/
def kin (w : World ο ε) (o : ο) : Option (Desc × Option ο × UInt32) :=
  (w.objects o).map fun e => (e.desc, e.pParent, e.nID)

def childrenOf (w : World ο ε) (p : ο) : Option (List UInt32) := (w.unit p).map Entry.xChildList

theorem kid_iff {w : World ο ε} {p : ο} {nID : UInt32} :
    w.Kid p nID ↔ ∃ c, w.kin c = some (.ifce, some p, nID) := by
  simp [Kid, kin]

theorem childrenOf_eq_some_iff {w : World ο ε} {p : ο} {ids : List UInt32} :
    w.childrenOf p = some ids ↔ ∃ e, w.objects p = some e ∧ e.desc = .gus ∧ e.xChildList = ids := by
  simp [childrenOf, unit, and_assoc]

structure FamilyInv (w : World ο ε) : Prop where
  parent : ∀ c parent nID, w.kin c = some (.ifce, parent, nID) →
    ∃ p, parent = some p ∧ (w.childrenOf p).isSome
  children : ∀ p ids, w.childrenOf p = some ids → Exact ids (w.Kid p)

theorem FamilyInv.family {w : World ο ε} (h : w.FamilyInv) : w.Family := by
  refine ⟨fun c e he hd => ?_, fun p u hu => h.children p _ (by simp [childrenOf, hu])⟩
  obtain ⟨p, hp, hu⟩ := h.parent c e.pParent e.nID (by simp [kin, he, hd])
  obtain ⟨ids, hids⟩ := Option.isSome_iff_exists.mp hu
  obtain ⟨u, hu, -⟩ := childrenOf_eq_some_iff.mp hids
  exact ⟨p, hp, by rw [hu]; rfl⟩

theorem FamilyInv.unit_of {w : World ο ε} (h : w.FamilyInv) {o : ο} {e : Entry ο ε}
    (he : w.objects o = some e) (hd : e.desc = .ifce) :
    ∃ p ids, e.pParent = some p ∧ w.childrenOf p = some ids := by
  obtain ⟨p, hp, hs⟩ := h.parent o e.pParent e.nID (by simp [kin, he, hd])
  obtain ⟨ids, hids⟩ := Option.isSome_iff_exists.mp hs
  exact ⟨p, ids, hp, hids⟩

theorem Family.exact {w : World ο ε} (h : w.Family) {p : ο} {ids : List UInt32}
    (hp : w.childrenOf p = some ids) : Exact ids (w.Kid p) := by
  obtain ⟨u, hu, rfl⟩ := Option.map_eq_some_iff.mp hp
  exact h.children p u hu

theorem Start.familyInv {w : World ο ε} (h : w.Start) : w.FamilyInv :=
  ⟨fun c _ _ hc => by simp [kin, h.objects c] at hc,
    fun p _ hp => by simp [childrenOf, unit, h.objects p] at hp⟩

theorem FamilyInv.of_eq {w w' : World ο ε} (h : w.FamilyInv) (hk : w'.kin = w.kin)
    (hc : w'.childrenOf = w.childrenOf) : w'.FamilyInv := by
  have hkid : w'.Kid = w.Kid := by
    funext p nID
    simp only [kid_iff, hk]
  exact ⟨by rw [hk, hc]; exact h.parent, by rw [hc, hkid]; exact h.children⟩

variable [DecidableEq ο]

theorem kin_setObject (w : World ο ε) (p : ο) (e : Option (Entry ο ε)) :
    (w.setObject p e).kin =
      Function.update w.kin p (e.map fun e => (e.desc, e.pParent, e.nID)) := by
  funext o
  by_cases h : o = p
  · subst h
    simp [kin, setObject]
  · simp [kin, setObject, h]

theorem childrenOf_setObject (w : World ο ε) (p : ο) (e : Option (Entry ο ε)) :
    (w.setObject p e).childrenOf =
      Function.update w.childrenOf p ((e.filter (·.desc = .gus)).map Entry.xChildList) := by
  funext o
  by_cases h : o = p
  · subst h
    simp [childrenOf, unit, setObject]
  · simp [childrenOf, unit, setObject, h]

theorem kin_setChildren {w : World ο ε} {p : ο} {u : Entry ο ε} (h : w.unit p = some u)
    (ids : List UInt32) : (w.setObject p (some { u with xChildList := ids })).kin = w.kin := by
  have hp : w.kin p = some (u.desc, u.pParent, u.nID) := by
    simp [kin, (Option.filter_eq_some_iff.mp h).1]
  rw [kin_setObject, Option.map_some, ← hp, Function.update_eq_self]

theorem childrenOf_setChildren {w : World ο ε} {p : ο} {u : Entry ο ε} (h : w.unit p = some u)
    (ids : List UInt32) : (w.setObject p (some { u with xChildList := ids })).childrenOf =
      Function.update w.childrenOf p (some ids) := by
  have hd : u.desc = .gus := by simpa using (Option.filter_eq_some_iff.mp h).2
  rw [childrenOf_setObject, Option.filter_some_pos (by simp [hd]), Option.map_some]

/-- What `f_attach` does to the links: an interface object comes to the end of its unit's list. -/
theorem fAttach_kin {w w' : World ο ε} {o : ο} {d : Desc} {c : Creation} {e : Entry ο ε}
    (h : w.fAttach o d c = some (e, w')) :
    w'.kin = w.kin ∧ e.desc = d ∧ e.nID = c.nID ∧ e.xChildList = [] ∧
      ((d ≠ .ifce ∧ w'.childrenOf = w.childrenOf) ∨
        (d = .ifce ∧ ∃ p ids, w.get c.nDevID = some p ∧ w.childrenOf p = some ids ∧
          e.pParent = some p ∧
          w'.childrenOf = Function.update w.childrenOf p (some (pushBack c.node ids c.nID)))) := by
  cases d with
  | ifce =>
    simp only [fAttach, bind, Option.bind_eq_some_iff, Option.some.injEq, Prod.mk.injEq] at h
    obtain ⟨p, hp, u, hu, rfl, rfl⟩ := h
    exact ⟨kin_setChildren hu _, rfl, rfl, rfl, .inr ⟨rfl, p, u.xChildList, hp,
      by simp [childrenOf, hu], rfl, childrenOf_setChildren hu _⟩⟩
  | _ =>
    simp only [fAttach, Option.some.injEq, Prod.mk.injEq] at h
    obtain ⟨rfl, rfl⟩ := h
    exact ⟨rfl, rfl, rfl, rfl, .inl ⟨by simp, rfl⟩⟩

theorem fDetach_kin (w : World ο ε) (o : ο) (e : Entry ο ε) :
    (w.fDetach o e).kin = w.kin ∧
      (e.desc ≠ .ifce → (w.fDetach o e).childrenOf = w.childrenOf) ∧
      ∀ p ids, e.desc = .ifce → e.pParent = some p → w.childrenOf p = some ids →
        (w.fDetach o e).childrenOf = Function.update w.childrenOf p (some (ids.erase e.nID)) := by
  cases hd : e.desc with
  | ifce =>
    cases hp : e.pParent with
    | none => exact ⟨by simp [fDetach, hd, hp], by simp, by simp⟩
    | some p =>
      cases hu : w.unit p with
      | none =>
        refine ⟨by simp [fDetach, hd, hp, hu], by simp, ?_⟩
        rintro p' ids - ⟨⟩ hids
        simp [childrenOf, hu] at hids
      | some u =>
        have hw : w.fDetach o e = w.setObject p (some { u with xChildList := u.xChildList.erase e.nID }) := by
          simp [fDetach, hd, hp, hu]
        rw [hw]
        refine ⟨kin_setChildren hu _, by simp, ?_⟩
        rintro p' ids - ⟨⟩ hids
        obtain rfl : u.xChildList = ids := by simpa [childrenOf, hu] using hids
        exact childrenOf_setChildren hu _
  | di =>
    refine ⟨?_, fun _ => ?_, by simp⟩ <;> (simp only [fDetach, hd]; rfl)
  | _ => exact ⟨by simp [fDetach, hd], by simp [fDetach, hd], by simp⟩

theorem destroy_kin (w : World ο ε) {o : ο} {e : Entry ο ε} (he : w.objects o = some e) :
    (w.destroy o e).kin = Function.update w.kin o none ∧
      (e.desc ≠ .ifce → (w.destroy o e).childrenOf = Function.update w.childrenOf o none) ∧
      ∀ p ids, e.desc = .ifce → e.pParent = some p → w.childrenOf p = some ids →
        (w.destroy o e).childrenOf = Function.update w.childrenOf p (some (ids.erase e.nID)) := by
  obtain ⟨hk, hc, hp⟩ := fDetach_kin { w with xObjList := w.xObjList.erase o } o e
  have hset := childrenOf_setObject (fDetach { w with xObjList := w.xObjList.erase o } o e) o none
  refine ⟨?_, fun hd => ?_, fun p ids hd hpp hids => ?_⟩
  · rw [destroy, kin_setObject, hk]
    rfl
  · rw [destroy, hset, hc hd]
    rfl
  · have ho : w.childrenOf o = none := by simp [childrenOf, unit, he, hd]
    have hne : p ≠ o := by
      rintro rfl
      simp [ho] at hids
    have hsame : Function.update w.childrenOf o none = w.childrenOf := by
      rw [← ho, Function.update_eq_self]
    rw [destroy, hset, hp p ids hd hpp hids, Function.update_comm hne]
    exact congrArg (Function.update · p _) hsame

variable (desc : UInt32 → Option Desc)

/-- The steps that keep the links: a creation of an interface object that fails at the registry has
left nothing in its unit's list and one that succeeds has its identifier there once, a unit is
destroyed without children, and an interface object while no other has its unit and identifier. -/
def FamilyAllowed (w : World ο ε) : Action ο ε → Prop
  | .create _ c => desc c.nID = some .ifce → ∀ p ∈ w.get c.nDevID, ∀ u ∈ w.unit p,
      (c.progress = .attached → c.node = false) ∧
        (c.progress = .inserted → (c.node = true ↔ c.nID ∉ u.xChildList))
  | .destroy o => ∀ e ∈ w.objects o, (e.desc = .gus → e.xChildList = []) ∧
      (e.desc = .ifce → ∀ c s, c ≠ o → w.objects c = some s → s.desc = .ifce →
        s.pParent = e.pParent → s.nID ≠ e.nID)
  | _ => True

variable {desc}

theorem create_inserted_kin {w w' : World ο ε} {o : ο} {c : Creation} {d : Desc} {e : Entry ο ε}
    (hd : desc c.nID = some d) (ha : w.fAttach o d c = some (e, w')) (hp : c.progress = .inserted) :
    (w.create desc o c).kin = Function.update w.kin o (some (d, e.pParent, c.nID)) ∧
      (w.create desc o c).childrenOf =
        Function.update w'.childrenOf o (if d = .gus then some [] else none) := by
  obtain ⟨hk, hed, hen, hec, -⟩ := fAttach_kin ha
  have hkin := kin_setObject w' o (some e)
  have hch := childrenOf_setObject w' o (some e)
  rw [hk, Option.map_some, hed, hen] at hkin
  simp only [World.create, hd, ha, hp, reduceCtorEq, if_false]
  refine ⟨hkin, hch.trans ?_⟩
  split
  · rename_i hg
    rw [Option.filter_some_pos (by simp [hed, hg]), Option.map_some, hec]
  · rename_i hg
    rw [Option.filter_some_neg (by simp [hed, hg]), Option.map_none]

theorem exists_update_some {κ : Type} {f : ο → Option κ} {o : ο} (ho : f o = none) {k k' : κ} :
    (∃ c, Function.update f o (some k') c = some k) ↔ (∃ c, f c = some k) ∨ k' = k := by
  constructor
  · rintro ⟨c, hc⟩
    by_cases h : c = o
    · subst h
      exact .inr (by simpa using hc)
    · exact .inl ⟨c, by simpa [h] using hc⟩
  · rintro (⟨c, hc⟩ | rfl)
    · have h : c ≠ o := by
        rintro rfl
        simp [ho] at hc
      exact ⟨c, by simpa [h] using hc⟩
    · exact ⟨o, by simp⟩

theorem exists_update_none {κ : Type} {f : ο → Option κ} {o : ο} {k : κ} :
    (∃ c, Function.update f o none c = some k) ↔ ∃ c, c ≠ o ∧ f c = some k := by
  refine exists_congr fun c => ?_
  by_cases h : c = o
  · subst h
    simp
  · simp [h]

theorem exact_pushBack_iff {ids : List UInt32} {S T : UInt32 → Prop} {node : Bool} {nID : UInt32}
    (h : Exact ids S) (hT : ∀ i, T i ↔ S i ∨ nID = i) :
    Exact (pushBack node ids nID) T ↔ (node = true ↔ nID ∉ ids) := by
  cases node with
  | false =>
    rw [pushBack_of_node rfl, h.congr_iff, h.2]
    simp only [hT, Bool.false_eq_true, false_iff, not_not]
    exact ⟨fun hS => (hS nID).mpr (.inr rfl), fun hS i => ⟨.inl, fun hi => hi.elim id (· ▸ hS)⟩⟩
  | true =>
    rw [pushBack, if_pos rfl, h.concat_iff, h.2]
    simp [hT, eq_comm]

theorem kid_create {w w' : World ο ε} {o : ο} (ho : w.objects o = none) {d : Desc} {p : Option ο}
    {nID : UInt32} (hk : w'.kin = Function.update w.kin o (some (d, p, nID))) {q : ο} {i : UInt32} :
    w'.Kid q i ↔ w.Kid q i ∨ (d = .ifce ∧ p = some q ∧ nID = i) := by
  rw [kid_iff, kid_iff, hk, exists_update_some (by simp [kin, ho])]
  simp

theorem FamilyInv.add_plain {w w' : World ο ε} (h : w.FamilyInv) {o : ο} (ho : w.objects o = none)
    {d : Desc} {p : Option ο} {nID : UInt32} (hd : d ≠ .ifce)
    (hk : w'.kin = Function.update w.kin o (some (d, p, nID)))
    (hc : w'.childrenOf = Function.update w.childrenOf o (if d = .gus then some [] else none)) :
    w'.FamilyInv := by
  have hco : w.childrenOf o = none := by simp [childrenOf, unit, ho]
  have hkid : ∀ q i, w'.Kid q i ↔ w.Kid q i := fun q i => by simp [kid_create ho hk, hd]
  refine ⟨fun c parent i hi => ?_, fun q ids hq => ?_⟩
  · have hne : c ≠ o := by
      rintro rfl
      rw [hk, Function.update_self, Option.some.injEq, Prod.mk.injEq] at hi
      exact hd hi.1
    rw [hk, Function.update_of_ne hne] at hi
    obtain ⟨q, hq, hs⟩ := h.parent c parent i hi
    have hqo : q ≠ o := by
      rintro rfl
      simp [hco] at hs
    exact ⟨q, hq, by rwa [hc, Function.update_of_ne hqo]⟩
  · by_cases hqo : q = o
    · subst hqo
      have hnil : ids = [] := by
        rw [hc, Function.update_self] at hq
        split at hq <;> simp_all
      rw [hnil, exact_nil_iff]
      intro i hi
      obtain ⟨c, hcp⟩ := kid_iff.mp ((hkid q i).mp hi)
      obtain ⟨r, hr, hs⟩ := h.parent c _ _ hcp
      cases hr
      simp [hco] at hs
    · rw [hc, Function.update_of_ne hqo] at hq
      exact ((h.children q ids hq).congr_iff).mpr fun i => (hkid q i).symm

theorem FamilyInv.add_ifce {w w' : World ο ε} (h : w.FamilyInv) {o p : ο} (ho : w.objects o = none)
    {ids : List UInt32} (hp : w.childrenOf p = some ids) {node : Bool} {nID : UInt32}
    (hk : w'.kin = Function.update w.kin o (some (.ifce, some p, nID)))
    (hc : w'.childrenOf = Function.update w.childrenOf p (some (pushBack node ids nID)))
    (hnode : node = true ↔ nID ∉ ids) : w'.FamilyInv := by
  have hkid : ∀ q i, w'.Kid q i ↔ w.Kid q i ∨ (p = q ∧ nID = i) := fun q i => by
    simp [kid_create ho hk]
  have hlive : ∀ q, (w'.childrenOf q).isSome ↔ (w.childrenOf q).isSome := by
    intro q
    by_cases hq : q = p
    · subst hq
      simp [hc, hp]
    · rw [hc, Function.update_of_ne hq]
  refine ⟨fun c parent i hi => ?_, fun q l hq => ?_⟩
  · by_cases hco : c = o
    · subst hco
      rw [hk, Function.update_self] at hi
      cases hi
      exact ⟨p, rfl, by simp [hlive, hp]⟩
    · rw [hk, Function.update_of_ne hco] at hi
      obtain ⟨q, hq, hs⟩ := h.parent c parent i hi
      exact ⟨q, hq, (hlive q).mpr hs⟩
  · by_cases hqp : q = p
    · subst hqp
      rw [hc, Function.update_self, Option.some.injEq] at hq
      rw [← hq]
      exact (exact_pushBack_iff (h.children q ids hp) fun i => by simp [hkid]).mpr hnode
    · rw [hc, Function.update_of_ne hqp] at hq
      refine (h.children q l hq).congr_iff.mpr fun i => ?_
      simp [hkid, Ne.symm hqp]

theorem childrenOf_insert {w : World ο ε} {o p : ο} (ho : w.objects o = none) {ids l : List UInt32}
    (hp : w.childrenOf p = some ids) :
    Function.update (Function.update w.childrenOf p (some l)) o none =
      Function.update w.childrenOf p (some l) := by
  have hco : w.childrenOf o = none := by simp [childrenOf, unit, ho]
  have hne : o ≠ p := by
    rintro rfl
    simp [hco] at hp
  refine Function.update_eq_self_iff.mpr ?_
  rw [Function.update_of_ne hne, hco]

theorem FamilyInv.create {w : World ο ε} (h : w.FamilyInv) {o : ο} (ho : w.objects o = none)
    {c : Creation} (hallow : w.FamilyAllowed desc (.create o c)) :
    (w.create desc o c).FamilyInv := by
  obtain heq | ⟨d, e, w', hd, ha, hc⟩ := w.create_cases desc o c
  · rw [heq]
    exact h
  obtain ⟨hk, -, -, -, hch⟩ := fAttach_kin ha
  obtain ⟨hp, heq⟩ | ⟨hp, -⟩ := hc
  · rw [heq]
    obtain ⟨-, hch⟩ | ⟨rfl, p, ids, hget, hids, -, hch⟩ := hch
    · exact h.of_eq hk hch
    · obtain ⟨u, hu, hui⟩ := Option.map_eq_some_iff.mp hids
      have hnode := (hallow hd p hget u hu).1 hp
      refine h.of_eq hk ?_
      rw [hch, pushBack_of_node hnode, ← hids, Function.update_eq_self]
  · obtain ⟨hkin, hlists⟩ := create_inserted_kin hd ha hp
    obtain ⟨hne, hch⟩ | ⟨rfl, p, ids, hget, hids, hpar, hch⟩ := hch
    · rw [hch] at hlists
      exact h.add_plain ho hne hkin hlists
    · obtain ⟨u, hu, rfl⟩ := Option.map_eq_some_iff.mp hids
      rw [hpar] at hkin
      rw [hch, if_neg (by simp), childrenOf_insert ho hids] at hlists
      exact h.add_ifce ho hids hkin hlists ((hallow hd p hget u hu).2 hp)

theorem kid_destroy {w w' : World ο ε} {o : ο} (hk : w'.kin = Function.update w.kin o none) {q : ο}
    {i : UInt32} : w'.Kid q i ↔ ∃ c, c ≠ o ∧ w.kin c = some (.ifce, some q, i) := by
  rw [kid_iff, hk, exists_update_none]

theorem FamilyInv.destroy_plain {w : World ο ε} (h : w.FamilyInv) {o : ο} {e : Entry ο ε}
    (he : w.objects o = some e) (hd : e.desc ≠ .ifce) (hnil : e.desc = .gus → e.xChildList = []) :
    (w.destroy o e).FamilyInv := by
  obtain ⟨hk, hc, -⟩ := destroy_kin w he
  have hko : w.kin o = some (e.desc, e.pParent, e.nID) := by simp [kin, he]
  have hne : ∀ c p i, w.kin c = some (.ifce, p, i) → c ≠ o := by
    rintro c p i hi rfl
    rw [hko, Option.some.injEq, Prod.mk.injEq] at hi
    exact hd hi.1
  refine ⟨fun c parent i hi => ?_, fun q ids hq => ?_⟩
  · have hco : c ≠ o := by
      rintro rfl
      simp [hk] at hi
    rw [hk, Function.update_of_ne hco] at hi
    obtain ⟨p, rfl, hs⟩ := h.parent c parent i hi
    have hpo : p ≠ o := by
      rintro rfl
      obtain ⟨ids, hids⟩ := Option.isSome_iff_exists.mp hs
      obtain ⟨u, hu, hg, rfl⟩ := childrenOf_eq_some_iff.mp hids
      obtain rfl : e = u := Option.some.inj (he.symm.trans hu)
      exact (h.children p _ hids).eq_nil_iff.mp (hnil hg) i (kid_iff.mpr ⟨c, hi⟩)
    exact ⟨p, rfl, by rwa [hc hd, Function.update_of_ne hpo]⟩
  · have hqo : q ≠ o := by
      rintro rfl
      simp [hc hd] at hq
    rw [hc hd, Function.update_of_ne hqo] at hq
    refine (h.children q ids hq).congr_iff.mpr fun i => ?_
    rw [kid_destroy hk, kid_iff]
    exact exists_congr fun c => ⟨fun hi => ⟨hne c _ _ hi, hi⟩, And.right⟩

theorem FamilyInv.destroy_ifce {w : World ο ε} (h : w.FamilyInv) {o : ο} {e : Entry ο ε}
    (he : w.objects o = some e) (hd : e.desc = .ifce)
    (hsole : ∀ c s, c ≠ o → w.objects c = some s → s.desc = .ifce → s.pParent = e.pParent →
      s.nID ≠ e.nID) : (w.destroy o e).FamilyInv := by
  obtain ⟨p, ids, hp, hids⟩ := h.unit_of he hd
  obtain ⟨hk, -, hc⟩ := destroy_kin w he
  have hlists := hc p ids hd hp hids
  have hko : w.kin o = some (.ifce, some p, e.nID) := by simp [kin, he, hd, hp]
  refine ⟨fun c parent i hi => ?_, fun q l hq => ?_⟩
  · have hco : c ≠ o := by
      rintro rfl
      simp [hk] at hi
    rw [hk, Function.update_of_ne hco] at hi
    obtain ⟨q, rfl, hs⟩ := h.parent c parent i hi
    refine ⟨q, rfl, ?_⟩
    by_cases hqp : q = p
    · simp [hlists, hqp]
    · rwa [hlists, Function.update_of_ne hqp]
  · by_cases hqp : q = p
    · subst hqp
      rw [hlists, Function.update_self, Option.some.injEq] at hq
      rw [← hq, (h.children q ids hids).erase_iff]
      intro i
      rw [kid_destroy hk, kid_iff]
      constructor
      · rintro ⟨c, hco, hi⟩
        obtain ⟨s, hs, hsk⟩ := Option.map_eq_some_iff.mp hi
        simp only [Prod.mk.injEq] at hsk
        obtain ⟨hsd, hsp, rfl⟩ := hsk
        exact ⟨hsole c s hco hs hsd (hsp.trans hp.symm), c, hi⟩
      · rintro ⟨hie, c, hi⟩
        refine ⟨c, ?_, hi⟩
        rintro rfl
        rw [hko] at hi
        cases hi
        exact hie rfl
    · rw [hlists, Function.update_of_ne hqp] at hq
      refine (h.children q l hq).congr_iff.mpr fun i => ?_
      rw [kid_destroy hk, kid_iff]
      refine exists_congr fun c => ⟨fun hi => ⟨?_, hi⟩, And.right⟩
      rintro rfl
      rw [hko] at hi
      cases hi
      exact hqp rfl

theorem FamilyInv.destroy {w : World ο ε} (h : w.FamilyInv) {o : ο} {e : Entry ο ε}
    (he : w.objects o = some e) (hallow : w.FamilyAllowed desc (.destroy o)) :
    (w.destroy o e).FamilyInv := by
  obtain ⟨hnil, hsole⟩ := hallow e he
  by_cases hd : e.desc = .ifce
  · exact h.destroy_ifce he hd (hsole hd)
  · exact h.destroy_plain he hd hnil

theorem FamilyInv.not_family_create {w : World ο ε} (h : w.FamilyInv) {o : ο}
    (ho : w.objects o = none) {c : Creation} (hallow : ¬ w.FamilyAllowed desc (.create o c)) :
    ¬ (w.create desc o c).Family := by
  simp only [FamilyAllowed, Classical.not_forall] at hallow
  obtain ⟨hd, p, hget, u, hu, hnot⟩ := hallow
  have hids : w.childrenOf p = some u.xChildList := by simp [childrenOf, Option.mem_def.mp hu]
  have ha : w.fAttach o .ifce c = some (⟨c.nID, .ifce, some p, [], []⟩,
      w.setObject p (some { u with xChildList := pushBack c.node u.xChildList c.nID })) := by
    simp [fAttach, Option.mem_def.mp hget, Option.mem_def.mp hu]
  have hlist := childrenOf_setChildren hu (pushBack c.node u.xChildList c.nID)
  intro hfam
  cases hp : c.progress with
  | aborted => exact hnot ⟨by simp [hp], by simp [hp]⟩
  | attached =>
    have heq : w.create desc o c = w.setObject p (some { u with
        xChildList := pushBack c.node u.xChildList c.nID }) := by simp [World.create, hd, ha, hp]
    rw [heq] at hfam
    have hnode : c.node = true := by
      by_contra hn
      exact hnot ⟨fun _ => by simpa using hn, by simp [hp]⟩
    have hex := hfam.exact (p := p) (by rw [hlist, Function.update_self])
    rw [hnode, pushBack, if_pos rfl, (h.children p _ hids).concat_iff] at hex
    obtain ⟨hnew, hkids⟩ := hex
    -- The identifier is listed, and nobody has come.
    have hkid : w.Kid p c.nID := by
      have hk := (hkids c.nID).mpr (.inr rfl)
      rwa [kid_iff, kin_setChildren hu, ← kid_iff] at hk
    exact hnew hkid
  | inserted =>
    obtain ⟨hkin, hlists⟩ := create_inserted_kin hd ha hp
    rw [hlist, if_neg (by simp), childrenOf_insert ho hids] at hlists
    have hex := hfam.exact (p := p) (by rw [hlists, Function.update_self])
    rw [exact_pushBack_iff (h.children p _ hids) fun i => by simp [kid_create ho hkin]] at hex
    exact hnot ⟨by simp [hp], fun _ => hex⟩

theorem FamilyInv.not_family_destroy {w : World ο ε} (h : w.FamilyInv) {o : ο} {e : Entry ο ε}
    (he : w.objects o = some e) (hallow : ¬ w.FamilyAllowed desc (.destroy o)) :
    ¬ (w.destroy o e).Family := by
  obtain ⟨hk, -, hc⟩ := destroy_kin w he
  have hkid := fun q i => kid_destroy (q := q) (i := i) hk
  intro hfam
  refine hallow fun e' he' => ?_
  obtain rfl : e = e' := Option.some.inj (he.symm.trans he')
  refine ⟨fun hg => ?_, fun hd c s hco hs hsd hsp hsid => ?_⟩
  · -- A child that is left points to where the unit was.
    have hids : w.childrenOf o = some e.xChildList := childrenOf_eq_some_iff.mpr ⟨e, he, hg, rfl⟩
    rw [(h.children o _ hids).eq_nil_iff]
    intro i hi
    obtain ⟨c, hi⟩ := kid_iff.mp hi
    have hco : c ≠ o := by
      rintro rfl
      simp [kin, he, hg] at hi
    obtain ⟨c, s, hs, hsd, hsp, -⟩ := (hkid o i).mpr ⟨c, hco, hi⟩
    obtain ⟨p, hp, hlive⟩ := hfam.parent c s hs hsd
    obtain rfl : o = p := Option.some.inj (hsp.symm.trans hp)
    simp [World.destroy, setObject] at hlive
  · obtain ⟨p, ids, hp, hids⟩ := h.unit_of he hd
    have hex := hfam.exact (p := p) (by rw [hc p ids hd hp hids, Function.update_self])
    rw [(h.children p ids hids).erase_iff] at hex
    exact ((hex e.nID).mp ((hkid p _).mpr ⟨c, hco, by simp [kin, hs, hsd, hsp, hp, hsid]⟩)).1 rfl

theorem kin_setEvents {w : World ο ε} {p : ο} {e : Entry ο ε} (h : w.objects p = some e)
    (vs : List ε) : (w.setObject p (some { e with xEventList := vs })).kin = w.kin ∧
      (w.setObject p (some { e with xEventList := vs })).childrenOf = w.childrenOf := by
  have hp : w.kin p = some (e.desc, e.pParent, e.nID) := by simp [kin, h]
  refine ⟨by rw [kin_setObject, Option.map_some, ← hp, Function.update_eq_self], ?_⟩
  rw [childrenOf_setObject, Function.update_eq_self_iff, childrenOf, unit, h]
  by_cases hd : e.desc = .gus
  · rw [Option.filter_some_pos (by simpa using hd), Option.filter_some_pos (by simpa using hd)]
    rfl
  · rw [Option.filter_some_neg (by simpa using hd), Option.filter_some_neg (by simpa using hd)]

variable [DecidableEq ε]

theorem familyInv_step {w w' : World ο ε} (h : w.FamilyInv) {a : Action ο ε}
    (ha : w.FamilyAllowed desc a) (hs : w.step desc a = some w') : w'.FamilyInv := by
  cases a with
  | create o c =>
    obtain ⟨ho, rfl⟩ := step_create.mp hs
    exact h.create ho ha
  | destroy o =>
    obtain ⟨e, he, rfl⟩ := step_destroy.mp hs
    exact h.destroy he ha
  | _ =>
    obtain ⟨u, v, os, rfl, rfl | ⟨p, e, vs, he, rfl⟩⟩ := step_links hs nofun nofun
    · exact h.of_eq rfl rfl
    · exact h.of_eq (kin_setEvents he vs).1 (kin_setEvents he vs).2

theorem not_family_step {w w' : World ο ε} (h : w.FamilyInv) {a : Action ο ε}
    (ha : ¬ w.FamilyAllowed desc a) (hs : w.step desc a = some w') : ¬ w'.Family := by
  cases a with
  | create o c =>
    obtain ⟨ho, rfl⟩ := step_create.mp hs
    exact h.not_family_create ho ha
  | destroy o =>
    obtain ⟨e, he, rfl⟩ := step_destroy.mp hs
    exact h.not_family_destroy he ha
  | _ => exact absurd trivial ha

/-- The links stay mutual and live through a run exactly when all its steps keep them. -/
theorem family_iff_allowed {w t : World ο ε} (hw : w.Start) {acts : List (Action ο ε)}
    (ht : exec (step desc) acts w = some t) :
    (∀ u, Visits (step desc) w acts u → u.Family) ↔
      ∀ u a, Takes (step desc) w acts u a → u.FamilyAllowed desc a :=
  visits_iff_takes hw.familyInv (fun _ _ _ h ha hs => familyInv_step h ha hs) (fun _ h => h.family)
    (fun _ _ _ h ha hs => not_family_step h ha hs) ht

section Runs

/-- A sensor unit is destroyed before its interface object, which keeps the pointer. -/
theorem unit_destroyed_first :
    empty.Start ∧ ∃ u, exec (step someTypes) [.create 1 (created 0x7E020001),
      .create 2 ⟨0x01800001, 0x7E020001, .inserted, true⟩, .destroy 1] empty = some u ∧
      ¬ u.Family := by
  refine ⟨start_empty, _, rfl, fun h => ?_⟩
  obtain ⟨p, hp, hs⟩ := h.parent 2 ⟨0x01800001, .ifce, some 1, [], []⟩ rfl rfl
  cases hp
  cases hs

theorem unit_destroyed_last :
    ∃ u, exec (step someTypes) [.create 1 (created 0x7E020001),
      .create 2 ⟨0x01800001, 0x7E020001, .inserted, true⟩, .destroy 2, .destroy 1] empty = some u ∧
      u.xObjList = [] ∧ u.Family := by
  obtain ⟨u, hu, hx⟩ : ∃ u, exec (step someTypes) [.create 1 (created 0x7E020001),
      .create 2 ⟨0x01800001, 0x7E020001, .inserted, true⟩, .destroy 2, .destroy 1] empty = some u ∧
      u.xObjList = [] := ⟨_, rfl, by decide⟩
  refine ⟨u, hu, hx, (family_iff_allowed start_empty hu).mpr (takes_of_along ?_) u
    ⟨_, List.prefix_rfl, hu⟩⟩
  refine ⟨by simp only [FamilyAllowed]; decide, ?_⟩
  rintro _ ⟨⟩
  refine ⟨by simp only [FamilyAllowed]; decide, ?_⟩
  rintro _ ⟨⟩
  refine ⟨?_, ?_⟩
  · rintro _ ⟨⟩
    refine ⟨by simp, fun _ c s hc hs hd => absurd hd ?_⟩
    -- The only other object is the unit.
    by_cases h₁ : c = 1
    · subst h₁
      cases hs
      decide
    · have hnone : (World.create someTypes (World.create someTypes empty 1 (created 0x7E020001)) 2
          ⟨0x01800001, 0x7E020001, .inserted, true⟩).objects c = none := by
        change Function.update (Function.update (Function.update (fun _ => none) 1 _) 1 _) 2 _ c = none
        rw [Function.update_of_ne hc, Function.update_of_ne h₁, Function.update_of_ne h₁]
      simp [hnone] at hs
  rintro _ ⟨⟩
  refine ⟨?_, fun _ _ => trivial⟩
  rintro _ ⟨⟩
  exact ⟨fun _ => by decide, by simp⟩

end Runs

end EdgeNode.Obj.World
