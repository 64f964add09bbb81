import EdgeNode.Obj.Family
import EdgeNode.Obj.Registry
import EdgeNode.Obj.Units
import Mathlib.Data.List.ReduceOption

/-! When a creation that returns OK has made the unit and all its children, and one that fails has left
the configuration and the registries. -/

namespace EdgeNode.Obj

open Config

namespace World

variable {ο ε : Type} [DecidableEq ο] {desc : UInt32 → Option Desc} {w : World ο ε} {o p : ο}
  {c : Creation}

omit [DecidableEq ο] in
theorem nID_eq_kin (w : World ο ε) (p : ο) : w.nID p = ((w.kin p).map (·.2.2)).getD 0 := by
  simp [nID, kin, Function.comp_def]

omit [DecidableEq ο] in
theorem isSome_kin : (w.kin p).isSome = (w.objects p).isSome := by
  simp [kin]

/-- What a creation comes to, as far as the links go. -/
theorem create_kin (desc : UInt32 → Option Desc) (c : Creation) (ho : w.objects o = none) :
    ((w.create desc o c).objects o = none ∧ (w.create desc o c).kin = w.kin) ∨
      ∃ d e w', desc c.nID = some d ∧ w.fAttach o d c = some (e, w') ∧ c.progress = .inserted ∧
        (w.create desc o c).kin = Function.update w.kin o (some (d, e.pParent, c.nID)) := by
  obtain heq | ⟨d, e, w', hd, ha, ⟨-, heq⟩ | ⟨hp, -⟩⟩ := w.create_cases desc o c
  · exact .inl ⟨by rw [heq, ho], by rw [heq]⟩
  · have hkin := (fAttach_kin ha).1
    refine .inl ⟨?_, by rw [heq, hkin]⟩
    rw [heq, ← Option.not_isSome_iff_eq_none, ← isSome_kin, hkin, isSome_kin, ho]
    simp
  · exact .inr ⟨d, e, w', hd, ha, hp, (create_inserted_kin hd ha hp).1⟩

theorem create_kin_of_ne (ho : w.objects o = none) (hne : p ≠ o) :
    (w.create desc o c).kin p = w.kin p := by
  obtain ⟨-, hk⟩ | ⟨d, e, w', -, -, -, hk⟩ := create_kin desc c ho
  · rw [hk]
  · rw [hk, Function.update_of_ne hne]

/-- A new interface object has found its unit. -/
theorem get_of_parent (ho : w.objects o = none) {nID : UInt32}
    (hk : (w.create desc o c).kin o = some (.ifce, some p, nID)) :
    desc c.nID = some .ifce ∧ c.progress = .inserted ∧ w.get c.nDevID = some p := by
  obtain ⟨hnone, -⟩ | ⟨d, e, w', hd, ha, hp, hkin⟩ := create_kin desc c ho
  · rw [kin, hnone] at hk
    cases hk
  · rw [hkin, Function.update_self] at hk
    simp only [Option.some.injEq, Prod.mk.injEq] at hk
    obtain ⟨rfl, hparent, -⟩ := hk
    obtain ⟨-, -, -, -, ⟨hne, -⟩ | ⟨-, q, -, hget, -, hq, -⟩⟩ := fAttach_kin ha
    · exact absurd rfl hne
    · rw [hparent] at hq
      cases hq
      exact ⟨hd, hp, hget⟩

theorem mem_create (hmem : p ∈ w.xObjList) :
    p ∈ (w.create desc o c).xObjList := by
  obtain heq | ⟨d, e, w', -, ha, ⟨-, heq⟩ | ⟨-, heq⟩⟩ := w.create_cases desc o c
  · rwa [heq]
  · rwa [heq, (fAttach_lists ha).2.2.1]
  · rw [heq]
    exact (pushSort_perm _ _ _).mem_iff.mpr (List.mem_cons_of_mem _ ((fAttach_lists ha).2.2.1 ▸ hmem))

theorem mem_of_created (ho : w.objects o = none)
    (hlive : ((w.create desc o c).objects o).isSome = true) : o ∈ (w.create desc o c).xObjList := by
  obtain heq | ⟨d, e, w', -, ha, ⟨-, heq⟩ | ⟨-, heq⟩⟩ := w.create_cases desc o c
  · rw [heq, ho] at hlive
    cases hlive
  · rw [heq, ← isSome_kin, (fAttach_kin ha).1, isSome_kin, ho] at hlive
    cases hlive
  · rw [heq]
    exact (pushSort_perm _ _ _).mem_iff.mpr List.mem_cons_self

omit [DecidableEq ο] in
theorem find?_pushSort {q : ο → Bool} (hq : q o = false) (id : ο → UInt32) (l : List ο) :
    (pushSort id o l).find? q = l.find? q := by
  induction l with
  | nil => simp [pushSort, hq]
  | cons x xs ih =>
    rw [pushSort]
    split
    · rw [List.find?_cons_of_neg (by simp [hq])]
    · rw [List.find?_cons, List.find?_cons, ih]

omit [DecidableEq ο] in
theorem find?_of_eq_off {l : List ο} {q q' : ο → Bool} (h : l.find? q = some p) (hne : p ≠ o)
    (heq : ∀ x, x ≠ o → q' x = q x) (ho : q' o = false) : l.find? q' = some p := by
  obtain ⟨hp, as, bs, rfl, has⟩ := List.find?_eq_some_iff_append.mp h
  refine List.find?_eq_some_iff_append.mpr ⟨(heq p hne).trans hp, as, bs, rfl, fun x hx => ?_⟩
  by_cases hxo : x = o
  · rw [hxo, ho]
    rfl
  · rw [heq x hxo]
    exact has x hx

/-- What is found by an identifier is still found when an object with another one is created. -/
theorem get_create (ho : w.objects o = none) {nID : UInt32} (hget : w.get nID = some p)
    (hp : (w.objects p).isSome = true) (hne : c.nID ≠ nID) :
    (w.create desc o c).get nID = some p := by
  have hpo : p ≠ o := by
    rintro rfl
    rw [ho] at hp
    cases hp
  have hkin (x : ο) (hx : x ≠ o) : (w.create desc o c).nID x = w.nID x := by
    rw [nID_eq_kin, nID_eq_kin, create_kin_of_ne ho hx]
  obtain heq | ⟨d, e, w', hd, ha, ⟨-, heq⟩ | ⟨hprogress, heq⟩⟩ := w.create_cases desc o c
  · rwa [heq]
  · have hsame (x : ο) : w'.nID x = w.nID x := by rw [nID_eq_kin, nID_eq_kin, (fAttach_kin ha).1]
    rw [heq, World.get, (fAttach_lists ha).2.2.1]
    simp only [hsame]
    exact hget
  · have hself : (w.create desc o c).nID o = c.nID := by
      rw [nID_eq_kin, (create_inserted_kin hd ha hprogress).1, Function.update_self]
      rfl
    have hlist : (w.create desc o c).xObjList = pushSort (w.create desc o c).nID o w.xObjList := by
      rw [heq, ← (fAttach_lists ha).2.2.1]
      rfl
    have hnew : (fun x => (w.create desc o c).nID x == nID) o = false := by simp [hself, hne]
    rw [World.get, hlist]
    exact (find?_pushSort (q := fun x => (w.create desc o c).nID x == nID) hnew _ _).trans
      (find?_of_eq_off hget hpo (fun x hx => by rw [hkin x hx]) hnew)

/-- A creation adds at most one to the list of another unit. -/
theorem childrenOf_create (desc : UInt32 → Option Desc) (c : Creation) (ho : w.objects o = none)
    {ids : List UInt32} (hp : w.childrenOf p = some ids) : ∃ ids', (w.create desc o c).childrenOf p = some ids' ∧
      ids'.length ≤ ids.length + 1 := by
  have hpo : p ≠ o := by
    rintro rfl
    simp [childrenOf, unit, ho] at hp
  have hgrown (w' : World ο ε) (e : Entry ο ε) (d : Desc) (ha : w.fAttach o d c = some (e, w')) :
      ∃ ids', w'.childrenOf p = some ids' ∧ ids'.length ≤ ids.length + 1 := by
    obtain ⟨-, -, -, -, ⟨-, hch⟩ | ⟨-, q, l, -, hl, -, hch⟩⟩ := fAttach_kin ha
    · exact ⟨ids, by rw [hch, hp], Nat.le_succ _⟩
    · by_cases hqp : p = q
      · subst hqp
        cases hl.symm.trans hp
        refine ⟨_, by rw [hch, Function.update_self], ?_⟩
        cases c.node <;> simp [pushBack]
      · exact ⟨ids, by rw [hch, Function.update_of_ne hqp, hp], Nat.le_succ _⟩
  obtain heq | ⟨d, e, w', hd, ha, ⟨-, heq⟩ | ⟨hprogress, -⟩⟩ := w.create_cases desc o c
  · exact ⟨ids, by rw [heq, hp], Nat.le_succ _⟩
  · rw [heq]
    exact hgrown w' e d ha
  · rw [(create_inserted_kin hd ha hprogress).2, Function.update_of_ne hpo]
    exact hgrown w' e d ha

/-- An interface object whose unit is there, and all the memory. -/
theorem create_ifce (ho : w.objects o = none) (hd : desc c.nID = some .ifce)
    (hget : w.get c.nDevID = some p) {ids : List UInt32} (hids : w.childrenOf p = some ids)
    (hprogress : c.progress = .inserted) :
    (w.create desc o c).kin o = some (.ifce, some p, c.nID) ∧
      (w.create desc o c).childrenOf p = some (pushBack c.node ids c.nID) := by
  have hpo : p ≠ o := by
    rintro rfl
    simp [childrenOf, unit, ho] at hids
  obtain ⟨u, hu, -⟩ := Option.map_eq_some_iff.mp hids
  obtain ⟨r, ha⟩ : ∃ r, w.fAttach o .ifce c = some r := by
    rw [fAttach, hget]
    simp only [bind, Option.bind_some, hu]
    exact ⟨_, rfl⟩
  obtain ⟨e, w'⟩ := r
  obtain ⟨hkin, hch⟩ := create_inserted_kin hd ha hprogress
  obtain ⟨-, -, -, -, ⟨hne, -⟩ | ⟨-, q, l, hq, hl, hparent, hpush⟩⟩ := fAttach_kin ha
  · exact absurd rfl hne
  · cases hq.symm.trans hget
    cases hl.symm.trans hids
    refine ⟨by rw [hkin, Function.update_self, hparent], ?_⟩
    rw [hch, Function.update_of_ne hpo, hpush, Function.update_self]

omit [DecidableEq ο] in
theorem kin_of_childrenOf {ids : List UInt32} (h : w.childrenOf p = some ids) :
    ∃ parent nID, w.kin p = some (.gus, parent, nID) := by
  obtain ⟨e, he, hd, -⟩ := childrenOf_eq_some_iff.mp h
  exact ⟨e.pParent, e.nID, by simp [kin, he, hd]⟩

theorem desc_of_created (ho : w.objects o = none) {d : Desc} {parent : Option ο} {nID : UInt32}
    (hk : (w.create desc o c).kin o = some (d, parent, nID)) :
    desc c.nID = some d ∧ c.progress = .inserted := by
  obtain ⟨hnone, -⟩ | ⟨d', e, w', hd, -, hprogress, hkin⟩ := create_kin desc c ho
  · rw [kin, hnone] at hk
    cases hk
  · rw [hkin, Function.update_self] at hk
    cases hk
    exact ⟨hd, hprogress⟩

/-- `FTE_OBJ_get` finds a new object by its identifier: none that has it comes before. -/
def Finds (w : World ο ε) (o : ο) (nID : UInt32) : Prop :=
  (pushSort (Function.update w.nID o nID) o w.xObjList).find?
    (fun x => Function.update w.nID o nID x == nID) = some o

theorem get_created (ho : w.objects o = none)
    (hlive : ((w.create desc o c).objects o).isSome = true) :
    (w.create desc o c).get c.nID = some o ↔ w.Finds o c.nID := by
  obtain ⟨hnone, -⟩ | ⟨d, e, w', hd, ha, hprogress, hk⟩ := create_kin desc c ho
  · rw [hnone] at hlive
    cases hlive
  have hid : (w.create desc o c).nID = Function.update w.nID o c.nID := by
    funext x
    rw [nID_eq_kin, hk, Function.update_apply, Function.update_apply, nID_eq_kin]
    split <;> rfl
  have hlist : (w.create desc o c).xObjList = pushSort (w.create desc o c).nID o w.xObjList := by
    rw [← (fAttach_lists ha).2.2.1]
    simp only [World.create, hd, ha, hprogress, reduceCtorEq, if_false]
    rfl
  rw [World.get, hlist, hid, Finds]

/-- A sensor unit. -/
theorem create_gus (hd : desc c.nID = some .gus) :
    ((w.create desc o c).objects o).isSome = true ↔
      (w.objects o).isSome = true ∨ c.progress = .inserted := by
  rw [World.create, hd]
  cases c.progress <;> simp [fAttach, setObject]

theorem childrenOf_created (hd : desc c.nID = some .gus) (hprogress : c.progress = .inserted) :
    (w.create desc o c).childrenOf o = some [] := by
  obtain ⟨-, hch⟩ := create_inserted_kin hd (show w.fAttach o .gus c = some _ from rfl) hprogress
  rw [hch, Function.update_self, if_pos rfl]

end World

namespace Units

variable {ο ε : Type} [DecidableEq ο]

section Objects

variable (desc : UInt32 → Option Desc) (d : UnitDriver) (u : Units ο ε) (pConfig : ObjectConfig)
  (c : ObjectCalls ο)

/-- What the driver's attach returns for an object. -/
def attachRet : Ret :=
  if desc pConfig.nID = some .gus ∧ c.alloc then (d.attach c.pObj c.pUCS (u.pDevices d)).1 else retOk

/-- The objects behind an `FTE_OBJ_create`. -/
def worldBehind : World ο ε :=
  u.world.create desc c.pObj
    ⟨pConfig.nID, pConfig.xReserved.getD 0 0, c.progress (u.attachRet desc d pConfig c), c.node⟩

/-- What an `FTE_OBJ_create` comes to. -/
structure Outcome (r : Option ο) (u' : Units ο ε) : Prop where
  free : u.world.objects c.pObj = none
  world : u'.world = u.worldBehind desc d pConfig c
  result : r = if (u'.world.objects c.pObj).isSome then some c.pObj else none
  config : u'.pConfig = if r.isSome then Function.update u.pConfig c.pObj pConfig else u.pConfig
  ram : u'.ram = u.ram

variable {desc d u pConfig c} {r : Option ο} {u' : Units ο ε}

theorem outcome (h : u.objCreate desc d pConfig c = some (r, u')) :
    u.Outcome desc d pConfig c r u' := by
  rw [objCreate] at h
  split at h
  next => cases h
  next hfree =>
    have hret : (if desc pConfig.nID = some .gus ∧ c.alloc = true
        then d.attach c.pObj c.pUCS (u.pDevices d) else (retOk, u.pDevices d)).1 =
          u.attachRet desc d pConfig c := by
      rw [attachRet]
      split <;> rfl
    simp only [hret] at h
    have hworld : u.world.create desc c.pObj ⟨pConfig.nID, pConfig.xReserved.getD 0 0,
        c.progress (u.attachRet desc d pConfig c), c.node⟩ = u.worldBehind desc d pConfig c := rfl
    simp only [hworld] at h
    split at h
    next hlive =>
      cases h
      exact ⟨by simpa using hfree, rfl, (if_pos hlive).symm, rfl, rfl⟩
    next hdead =>
      cases h
      exact ⟨by simpa using hfree, rfl, (if_neg hdead).symm, rfl, rfl⟩

theorem Outcome.live (h : u.Outcome desc d pConfig c r u') {o : ο} (hr : o ∈ r) :
    o = c.pObj ∧ (u'.world.objects c.pObj).isSome = true := by
  have hresult := h.result
  rw [hr] at hresult
  split at hresult
  next hlive => exact ⟨Option.some.inj hresult, hlive⟩
  next => cases hresult

theorem Outcome.registered (h : u.Outcome desc d pConfig c r u') {o : ο} (hr : o ∈ r) :
    o ∈ u'.world.xObjList ∧ u'.pConfig o = pConfig := by
  obtain ⟨rfl, hlive⟩ := h.live hr
  constructor
  · rw [h.world] at hlive ⊢
    exact World.mem_of_created h.free hlive
  · rw [h.config, Option.isSome_iff_exists.mpr ⟨_, hr⟩, if_pos rfl, Function.update_self]

/-- Live objects stay as they are. -/
def Extends (u u' : Units ο ε) : Prop :=
  ∀ p, (u.world.objects p).isSome = true → u'.world.kin p = u.world.kin p ∧
    u'.pConfig p = u.pConfig p ∧ (p ∈ u.world.xObjList → p ∈ u'.world.xObjList)

omit [DecidableEq ο] in
theorem Extends.live (h : u.Extends u') {p : ο} (hp : (u.world.objects p).isSome = true) :
    (u'.world.objects p).isSome = true := by
  rw [← World.isSome_kin] at hp ⊢
  rwa [(h p (World.isSome_kin ▸ hp)).1]

omit [DecidableEq ο] in
theorem Extends.refl (u : Units ο ε) : u.Extends u := fun _ _ => ⟨rfl, rfl, id⟩

omit [DecidableEq ο] in
theorem Extends.trans {u'' : Units ο ε} (h : u.Extends u') (h' : u'.Extends u'') :
    u.Extends u'' := by
  intro p hp
  obtain ⟨hk, hc, hx⟩ := h p hp
  obtain ⟨hk', hc', hx'⟩ := h' p (h.live hp)
  exact ⟨hk'.trans hk, hc'.trans hc, hx' ∘ hx⟩

theorem Outcome.extends (h : u.Outcome desc d pConfig c r u') : u.Extends u' := by
  intro p hp
  have hne : p ≠ c.pObj := by
    rintro rfl
    rw [h.free] at hp
    cases hp
  refine ⟨?_, ?_, fun hmem => ?_⟩
  · rw [h.world]
    exact World.create_kin_of_ne h.free hne
  · rw [h.config]
    split
    · exact Function.update_of_ne hne _ _
    · rfl
  · rw [h.world]
    exact World.mem_create hmem

omit [DecidableEq ο] in
theorem progress_inserted {xRet : Ret} :
    c.progress xRet = .inserted ↔ c.alloc = true ∧ xRet = retOk ∧ c.insert = true := by
  rw [ObjectCalls.progress]
  cases c.alloc <;> cases c.insert <;> by_cases h : xRet = retOk <;> simp [h]

end Objects

section Children

variable {desc : UInt32 → Option Desc} {d : UnitDriver} {u u' : Units ο ε} {pObj : ο}
  {config : ObjectConfig} {c : ObjectCalls ο} {r : Option ο} {nID : UInt32} {ids : List UInt32}

/-- The interface object of a unit that a configuration has become. -/
structure IsChild (u : Units ο ε) (pObj : ο) (config : ObjectConfig) (o : ο) : Prop where
  registered : o ∈ u.world.xObjList
  parent : u.world.kin o = some (.ifce, some pObj, config.nID)
  config : u.pConfig o = config

/-- Nothing fails with a child: its type has a descriptor, and there is all the memory. -/
def ChildAllowed (desc : UInt32 → Option Desc) (config : ObjectConfig) (c : ObjectCalls ο) : Prop :=
  desc config.nID = some .ifce ∧ c.alloc = true ∧ c.insert = true ∧ c.node = true

/-- A unit that `FTE_OBJ_get` finds, with what its list has. -/
structure Found (desc : UInt32 → Option Desc) (u : Units ο ε) (nID : UInt32) (pObj : ο)
    (ids : List UInt32) : Prop where
  desc : desc nID = some .gus
  get : u.world.get nID = some pObj
  children : u.world.childrenOf pObj = some ids

omit [DecidableEq ο] in
theorem Found.live (h : u.Found desc nID pObj ids) : (u.world.objects pObj).isSome = true := by
  obtain ⟨e, he, -⟩ := World.childrenOf_eq_some_iff.mp h.children
  rw [he]
  rfl

theorem attachRet_ifce (hd : desc config.nID = some .ifce) : u.attachRet desc d config c = retOk := by
  rw [attachRet, hd]
  simp

theorem Outcome.child (h : u.Outcome desc d config c r u') (hf : u.Found desc nID pObj ids)
    (hdev : config.xReserved.getD 0 0 = nID) (ha : ChildAllowed desc config c) :
    r = some c.pObj ∧ u'.IsChild pObj config c.pObj ∧
      u'.Found desc nID pObj (ids ++ [config.nID]) := by
  obtain ⟨hd, halloc, hinsert, hnode⟩ := ha
  have hprogress : c.progress (u.attachRet desc d config c) = .inserted :=
    progress_inserted.mpr ⟨halloc, attachRet_ifce hd, hinsert⟩
  have hne : config.nID ≠ nID := by
    rintro rfl
    cases hd.symm.trans hf.desc
  have hget : u.world.get (config.xReserved.getD 0 0) = some pObj := hdev.symm ▸ hf.get
  obtain ⟨hkin, hch⟩ := World.create_ifce (c := ⟨config.nID, config.xReserved.getD 0 0,
    c.progress (u.attachRet desc d config c), c.node⟩) h.free hd hget hf.children hprogress
  have hlive : (u'.world.objects c.pObj).isSome = true := by
    rw [← World.isSome_kin, h.world, worldBehind, hkin]
    rfl
  have hr : r = some c.pObj := by rw [h.result, if_pos hlive]
  refine ⟨hr, ⟨(h.registered hr).1, ?_, (h.registered hr).2⟩, hf.desc, ?_, ?_⟩
  · rw [h.world]
    exact hkin
  · rw [h.world]
    exact World.get_create h.free hf.get hf.live hne
  · rw [h.world, worldBehind, hch, hnode]
    rfl

/-- What is the child of a unit was not refused anything but its place in the unit's list. -/
theorem Outcome.of_child (h : u.Outcome desc d config c r u') {n : UInt32}
    (hk : u'.world.kin c.pObj = some (.ifce, some pObj, n)) :
    desc config.nID = some .ifce ∧ c.alloc = true ∧ c.insert = true ∧
      u.world.get (config.xReserved.getD 0 0) = some pObj := by
  rw [h.world] at hk
  obtain ⟨hd, hprogress, hget⟩ := World.get_of_parent h.free hk
  obtain ⟨halloc, -, hinsert⟩ := progress_inserted.mp hprogress
  exact ⟨hd, halloc, hinsert, hget⟩

/-- The unit's list has grown by the child's identifier, or not at all. -/
theorem Outcome.childrenOf (h : u.Outcome desc d config c r u') (hf : u.Found desc nID pObj ids)
    (hdev : config.xReserved.getD 0 0 = nID) {n : UInt32}
    (hk : u'.world.kin c.pObj = some (.ifce, some pObj, n)) :
    u'.world.childrenOf pObj = some (World.pushBack c.node ids config.nID) := by
  rw [h.world] at hk
  obtain ⟨hd, hprogress, -⟩ := World.get_of_parent h.free hk
  have hget : u.world.get (config.xReserved.getD 0 0) = some pObj := hdev.symm ▸ hf.get
  rw [h.world]
  exact (World.create_ifce (c := ⟨config.nID, config.xReserved.getD 0 0,
    c.progress (u.attachRet desc d config c), c.node⟩) h.free hd hget hf.children hprogress).2

section Lists

variable {cs : List ObjectConfig} {calls : Nat → ObjectCalls ο} {rs : List (Option ο)}

theorem createChildren_cons (h : u.createChildren desc d (config :: cs) calls = some (rs, u')) :
    ∃ r u₁ rs', rs = r :: rs' ∧ u.Outcome desc d config (calls 0) r u₁ ∧
      u₁.createChildren desc d cs (fun i => calls (i + 1)) = some (rs', u') := by
  rw [createChildren] at h
  split at h
  next => cases h
  next r u₁ hr =>
    obtain ⟨⟨rs', u₂⟩, hrest, heq⟩ := Option.map_eq_some_iff.mp h
    cases heq
    exact ⟨r, u₁, rs', rfl, outcome hr, hrest⟩

theorem createChildren_extends (h : u.createChildren desc d cs calls = some (rs, u')) :
    u.Extends u' := by
  induction cs generalizing u calls rs with
  | nil =>
    cases h
    exact .refl u'
  | cons config cs ih =>
    obtain ⟨r, u₁, rs', -, hr, hrest⟩ := createChildren_cons h
    exact hr.extends.trans (ih hrest)

theorem createChildren_configs (h : u.createChildren desc d cs calls = some (rs, u')) :
    List.Forall₂ (fun config r => ∀ o ∈ r, u'.pConfig o = config) cs rs := by
  induction cs generalizing u calls rs with
  | nil =>
    cases h
    exact .nil
  | cons config cs ih =>
    obtain ⟨r, u₁, rs', rfl, hr, hrest⟩ := createChildren_cons h
    refine .cons (fun o ho => ?_) (ih hrest)
    obtain ⟨rfl, hlive⟩ := hr.live ho
    rw [(createChildren_extends hrest _ hlive).2.1]
    exact (hr.registered ho).2

theorem childrenOf_createChildren (h : u.createChildren desc d cs calls = some (rs, u'))
    (hids : u.world.childrenOf pObj = some ids) : ∃ ids', u'.world.childrenOf pObj = some ids' ∧
      ids'.length ≤ ids.length + cs.length := by
  induction cs generalizing u calls rs ids with
  | nil =>
    cases h
    exact ⟨ids, hids, Nat.le_refl _⟩
  | cons config cs ih =>
    obtain ⟨r, u₁, rs', -, hr, hrest⟩ := createChildren_cons h
    obtain ⟨ids₁, hids₁, hle₁⟩ := World.childrenOf_create desc ⟨config.nID,
      config.xReserved.getD 0 0, (calls 0).progress (u.attachRet desc d config (calls 0)),
      (calls 0).node⟩ hr.free hids
    rw [← worldBehind, ← hr.world] at hids₁
    obtain ⟨ids', hids', hle⟩ := ih hrest hids₁
    refine ⟨ids', hids', ?_⟩
    rw [List.length_cons]
    omega

/-- All the children are there, and listed in their order, exactly when nothing fails with any. -/
theorem createChildren_iff (h : u.createChildren desc d cs calls = some (rs, u'))
    (hf : u.Found desc nID pObj ids) (hdev : ∀ config ∈ cs, config.xReserved.getD 0 0 = nID) :
    List.Forall₂ (fun config r => ∃ o ∈ r, u'.IsChild pObj config o) cs rs ∧
        u'.world.childrenOf pObj = some (ids ++ cs.map ObjectConfig.nID) ↔
      ∀ i, ∀ config ∈ cs[i]?, ChildAllowed desc config (calls i) := by
  induction cs generalizing u calls rs ids with
  | nil =>
    cases h
    simpa using hf.children
  | cons config cs ih =>
    obtain ⟨r, u₁, rs', rfl, hr, hrest⟩ := createChildren_cons h
    obtain ⟨hdev₀, hdevs⟩ := List.forall_mem_cons.mp hdev
    have hkept := createChildren_extends hrest
    constructor
    · rintro ⟨hall, hlist⟩
      obtain ⟨⟨o, ho, hchild⟩, hall⟩ := List.forall₂_cons.mp hall
      obtain ⟨rfl, hlive⟩ := hr.live ho
      have hk : u₁.world.kin (calls 0).pObj = some (.ifce, some pObj, config.nID) :=
        (hkept _ hlive).1 ▸ hchild.parent
      obtain ⟨hd, halloc, hinsert, -⟩ := hr.of_child hk
      have hids := hr.childrenOf hf hdev₀ hk
      have hnode : (calls 0).node = true := by
        -- A child left out of the list would leave it too short in the end.
        obtain ⟨ids', hids', hle⟩ := childrenOf_createChildren hrest hids
        cases hids'.symm.trans hlist
        cases hn : (calls 0).node with
        | true => rfl
        | false =>
          rw [World.pushBack_of_node hn, List.length_append, List.length_map, List.length_cons] at hle
          omega
      have ha : ChildAllowed desc config (calls 0) := ⟨hd, halloc, hinsert, hnode⟩
      have hf₁ := (hr.child hf hdev₀ ha).2.2
      rw [List.map_cons, ← List.singleton_append, ← List.append_assoc] at hlist
      have hrests := (ih hrest hf₁ hdevs).mp ⟨hall, hlist⟩
      intro i
      cases i with
      | zero => simpa using ha
      | succ i => simpa using hrests i
    · intro hall
      have ha : ChildAllowed desc config (calls 0) := hall 0 config (by simp)
      obtain ⟨rfl, hchild, hf₁⟩ := hr.child hf hdev₀ ha
      obtain ⟨hrests, hlist⟩ := (ih hrest hf₁ hdevs).mpr fun i => by simpa using hall (i + 1)
      have hlive := (hr.live rfl).2
      obtain ⟨hk, hc, hx⟩ := hkept _ hlive
      refine ⟨.cons ⟨_, rfl, hx hchild.registered, hk.trans hchild.parent, hc.trans hchild.config⟩ hrests, ?_⟩
      rw [hlist, List.map_cons, List.append_assoc, List.singleton_append]

end Lists

end Children

section Units

variable {desc : UInt32 → Option Desc} {d : UnitDriver} {u u' : Units ο ε} {pObj : ο}
  {pConfig : ObjectConfig} {c : ObjectCalls ο} {r : Option ο}

/-- What a unit has to have, and its driver to answer, to be created. -/
def Made (desc : UInt32 → Option Desc) (d : UnitDriver) (u : Units ο ε) (pConfig : ObjectConfig)
    (c : ObjectCalls ο) : Prop :=
  desc pConfig.nID = some .gus ∧ c.alloc = true ∧
    (d.attach c.pObj c.pUCS (u.pDevices d)).1 = retOk ∧ c.insert = true

theorem Outcome.made (h : u.Outcome desc d pConfig c r u') (hm : u.Made desc d pConfig c) :
    r = some c.pObj ∧ u'.world.childrenOf c.pObj = some [] := by
  obtain ⟨hd, halloc, hattach, hinsert⟩ := hm
  have hret : u.attachRet desc d pConfig c = retOk := by rw [attachRet, if_pos ⟨hd, halloc⟩, hattach]
  have hprogress : c.progress (u.attachRet desc d pConfig c) = .inserted :=
    progress_inserted.mpr ⟨halloc, hret, hinsert⟩
  have hlive : (u'.world.objects c.pObj).isSome = true := by
    rw [h.world, worldBehind, World.create_gus hd]
    exact .inr hprogress
  refine ⟨by rw [h.result, if_pos hlive], ?_⟩
  rw [h.world]
  exact World.childrenOf_created hd hprogress

theorem Outcome.of_made (h : u.Outcome desc d pConfig c r u') {parent : Option ο} {n : UInt32}
    (hk : u'.world.kin c.pObj = some (.gus, parent, n)) : u.Made desc d pConfig c := by
  rw [h.world] at hk
  obtain ⟨hd, hprogress⟩ := World.desc_of_created h.free hk
  obtain ⟨halloc, hret, hinsert⟩ := progress_inserted.mp hprogress
  refine ⟨hd, halloc, ?_, hinsert⟩
  rwa [attachRet, if_pos ⟨hd, halloc⟩] at hret

theorem Outcome.finds (h : u.Outcome desc d pConfig c r u') (hr : r = some c.pObj) :
    u'.world.get pConfig.nID = some c.pObj ↔ u.world.Finds c.pObj pConfig.nID := by
  have hlive := (h.live hr).2
  rw [h.world] at hlive ⊢
  exact World.get_created h.free hlive

end Units

section Contract

variable (product : Product) (desc : UInt32 → Option Desc) (d : UnitDriver) (m : UnitBase)
  (carries : List UInt32 → Prop) (hasID : Prop) (calls : Nat → ObjectCalls ο) (u : Units ο ε)

/-- A registered unit that carries its identifier, with an interface object for each of the children,
all listed in it. -/
structure Complete (pChild : List ObjectConfig) (r : UnitResult ο ε) (pObj : ο) : Prop where
  registered : pObj ∈ r.units.world.xObjList
  identified : carries (r.units.pConfig pObj).xReserved
  children : List.Forall₂ (fun child p => ∃ o ∈ p, ∃ config,
    ChildOf (r.units.pConfig pObj).nID child config ∧ r.units.IsChild pObj config o) pChild r.pChild
  listed : r.units.world.childrenOf pObj = some (r.pChild.reduceOption.map r.units.world.nID)

def Contract (pChild : List ObjectConfig) (r : UnitResult ο ε) : Prop :=
  if r.xRet = retOk then ∃ pObj ∈ r.ppObj, Complete carries pChild r pObj
  else r.units.ram = u.ram ∧ r.units.world = u.world ∧ r.units.pDevices = u.pDevices

/-- The configurations are there, the unit is made, carries its identifier and is found by that of the
pool, and nothing fails with any child. -/
structure UnitAllowed (pConfig : ObjectConfig) (pChildConfig : List ObjectConfig) : Prop where
  made : u.Made desc d pConfig (calls 0)
  finds : u.world.Finds (calls 0).pObj pConfig.nID
  identified : hasID
  slots : pChildConfig.length = m.pChild.length
  children : ∀ i, ∀ config ∈ pChildConfig[i]?, ChildAllowed desc config (calls (i + 1))

/-- A duplicate is an error; and when the unit gets a slot, nothing fails behind that. -/
def Allowed : Prop :=
  if u.isDuplicate d m.same then m.duplicate ≠ retOk
  else ∀ x ∈ objCreated product m.pBase (fun i => m.pChild.getD i zeroObject) m.ulMaxCount u.ram,
    u.UnitAllowed desc d m hasID calls x.1 x.2

/-- What the default configurations of the drivers have in common. -/
structure WellFormed (m : UnitBase) : Prop where
  count : m.pBase.ulChild.toNat = m.pChild.length
  some : m.pChild ≠ []
  few : m.pBase.ulChild ≠ 0xFFFFFFFF
  words : ∀ child ∈ m.pChild, child.xReserved ≠ []

variable {product desc d m carries hasID calls u} {u' : Units ο ε} {pObj : ο} {nID : UInt32}
  {cs : List ObjectConfig} {rs : List (Option ο)}

omit [DecidableEq ο] in
/-- The objects of the children are those of the slots that the children got. -/
theorem children_iff (hcs : List.Forall₂ (fun config r => ∀ o ∈ r, u'.pConfig o = config) cs rs)
    (ts : List ObjectConfig) :
    List.Forall₂ (fun child p => ∃ o ∈ p, ∃ config, ChildOf nID child config ∧
        u'.IsChild pObj config o) ts rs ↔
      List.Forall₂ (ChildOf nID) ts cs ∧
        List.Forall₂ (fun config r => ∃ o ∈ r, u'.IsChild pObj config o) cs rs := by
  induction hcs generalizing ts with
  | nil => simp
  | @cons config r cs rs hr _ ih =>
    cases ts with
    | nil => simp
    | cons child ts =>
      rw [List.forall₂_cons, List.forall₂_cons, List.forall₂_cons, ih ts]
      constructor
      · rintro ⟨⟨o, ho, config', hchild, hobj⟩, hts, hrs⟩
        obtain rfl : config' = config := hobj.config.symm.trans (hr o ho)
        exact ⟨⟨hchild, hts⟩, ⟨o, ho, hobj⟩, hrs⟩
      · rintro ⟨⟨hchild, hts⟩, ⟨o, ho, hobj⟩, hrs⟩
        exact ⟨⟨o, ho, config, hchild, hobj⟩, hts, hrs⟩

omit [DecidableEq ο] in
theorem map_nID_eq (h : List.Forall₂ (fun config r => ∃ o ∈ r, u'.IsChild pObj config o) cs rs) :
    rs.reduceOption.map u'.world.nID = cs.map ObjectConfig.nID := by
  induction h with
  | nil => rfl
  | cons hr _ ih =>
    obtain ⟨o, ho, hobj⟩ := hr
    obtain rfl := Option.mem_def.mp ho
    rw [List.reduceOption_cons_of_some, List.map_cons, List.map_cons, ih, World.nID_eq_kin, hobj.parent]
    rfl

omit [DecidableEq ο] in
theorem nDevID_of_childOf {ts : List ObjectConfig} (h : List.Forall₂ (ChildOf nID) ts cs)
    (hwords : ∀ child ∈ ts, child.xReserved ≠ []) :
    ∀ config ∈ cs, config.xReserved.getD 0 0 = nID := by
  induction h with
  | nil => nofun
  | @cons child config ts cs hchild _ ih =>
    obtain ⟨hword, hwords⟩ := List.forall_mem_cons.mp hwords
    refine List.forall_mem_cons.mpr ⟨?_, ih hwords⟩
    obtain ⟨n, pName, rfl⟩ := hchild
    cases hx : child.xReserved with
    | nil => exact absurd hx hword
    | cons x xs => rfl

/-- A child that was made shows that its unit is found. -/
theorem get_of_children {u₁ : Units ο ε} (h : u₁.createChildren desc d cs calls = some (rs, u'))
    (hobjs : List.Forall₂ (fun config r => ∃ o ∈ r, u'.IsChild pObj config o) cs rs) (hcs : cs ≠ [])
    (hdev : ∀ config ∈ cs, config.xReserved.getD 0 0 = nID) : u₁.world.get nID = some pObj := by
  cases cs with
  | nil => exact absurd rfl hcs
  | cons config cs =>
    obtain ⟨r, u₂, rs', rfl, hr, hrest⟩ := createChildren_cons h
    obtain ⟨⟨o, ho, hobj⟩, -⟩ := List.forall₂_cons.mp hobjs
    obtain ⟨rfl, hlive⟩ := hr.live ho
    have hk : u₂.world.kin (calls 0).pObj = some (.ifce, some pObj, config.nID) :=
      (createChildren_extends hrest _ hlive).1 ▸ hobj.parent
    rw [← hdev config List.mem_cons_self]
    exact (hr.of_child hk).2.2.2

/-- What is missing behind a unit that is there. -/
theorem complete_iff {r : Option ο} {u₀ u₁ : Units ο ε} {pConfig : ObjectConfig} {c : ObjectCalls ο}
    (hr : u₀.Outcome desc d pConfig c r u₁) (hlive : r = some c.pObj)
    (h : u₁.createChildren desc d cs calls = some (rs, u')) {ts : List ObjectConfig} (hts : ts ≠ [])
    (hwords : ∀ child ∈ ts, child.xReserved ≠ [])
    (hslots : cs.length = ts.length → List.Forall₂ (ChildOf pConfig.nID) ts cs) :
    Complete carries ts ⟨retOk, some c.pObj, rs, u'⟩ c.pObj ↔
      u₀.Made desc d pConfig c ∧ u₀.world.Finds c.pObj pConfig.nID ∧ carries pConfig.xReserved ∧
        cs.length = ts.length ∧ ∀ i, ∀ config ∈ cs[i]?, ChildAllowed desc config (calls i) := by
  obtain ⟨hkin, hconfig, hmem⟩ := createChildren_extends h _ (hr.live hlive).2
  rw [(hr.registered hlive).2] at hconfig
  have hcs := createChildren_configs h
  constructor
  · rintro ⟨-, hid, hchildren, hlisted⟩
    dsimp only at hid hchildren hlisted
    rw [hconfig] at hid hchildren
    obtain ⟨hchildOf, hobjs⟩ := (children_iff hcs ts).mp hchildren
    have hdev := nDevID_of_childOf hchildOf hwords
    obtain ⟨parent, n, hgus⟩ := World.kin_of_childrenOf hlisted
    have hmade := hr.of_made (hkin ▸ hgus)
    have hne : cs ≠ [] := by
      rintro rfl
      cases hchildOf
      exact hts rfl
    have hget := get_of_children h hobjs hne hdev
    have hf : u₁.Found desc pConfig.nID c.pObj [] := ⟨hmade.1, hget, (hr.made hmade).2⟩
    refine ⟨hmade, (hr.finds hlive).mp hget, hid, hchildOf.length_eq.symm, ?_⟩
    exact (createChildren_iff h hf hdev).mp ⟨hobjs, by rw [hlisted, map_nID_eq hobjs]; rfl⟩
  · rintro ⟨hmade, hfinds, hid, hlength, hall⟩
    have hchildOf := hslots hlength
    have hf : u₁.Found desc pConfig.nID c.pObj [] :=
      ⟨hmade.1, (hr.finds hlive).mpr hfinds, (hr.made hmade).2⟩
    obtain ⟨hobjs, hlisted⟩ :=
      (createChildren_iff h hf (nDevID_of_childOf hchildOf hwords)).mpr hall
    refine ⟨hmem (hr.registered hlive).1, ?_, ?_, ?_⟩
    · dsimp only
      rwa [hconfig]
    · dsimp only
      rw [hconfig]
      exact (children_iff hcs ts).mpr ⟨hchildOf, hobjs⟩
    · dsimp only
      rw [hlisted, map_nID_eq hobjs]
      rfl

theorem map_getD_range {α : Type} (l : List α) (x : α) :
    ((List.range l.length).map fun i => l.getD i x) = l := by
  refine List.ext_getElem (by simp) fun i _ hi => ?_
  simp [List.getD, hi]

omit [DecidableEq ο] in
theorem contract_of_error {ts : List ObjectConfig} {r : UnitResult ο ε} (hret : r.xRet ≠ retOk) :
    u.Contract carries ts r ↔
      r.units.ram = u.ram ∧ r.units.world = u.world ∧ r.units.pDevices = u.pDevices := by
  rw [Contract, if_neg hret]

omit [DecidableEq ο] in
theorem contract_of_ok {ts : List ObjectConfig} {ppObj : Option ο} :
    u.Contract carries ts ⟨retOk, ppObj, rs, u'⟩ ↔
      ∃ pObj ∈ ppObj, Complete carries ts ⟨retOk, ppObj, rs, u'⟩ pObj := by
  rw [Contract, if_pos rfl]

theorem contract_iff (hm : WellFormed m) (hid : carries m.pBase.xReserved ↔ hasID)
    {r : UnitResult ο ε} (h : u.create product desc d m calls = some r) :
    u.Contract carries m.pChild r ↔ u.Allowed product desc d m hasID calls := by
  rw [create] at h
  rw [Allowed]
  split at h
  next hdup =>
    cases h
    rw [if_pos hdup]
    by_cases hret : m.duplicate = retOk
    · rw [hret, contract_of_ok]
      simp
    · rw [contract_of_error hret]
      exact ⟨fun _ => hret, fun _ => ⟨rfl, rfl, rfl⟩⟩
  next hdup =>
    rw [if_neg hdup]
    dsimp only at h
    cases hcreated : objCreated product m.pBase (fun i => m.pChild.getD i zeroObject) m.ulMaxCount u.ram with
    | none =>
      rw [hcreated, objCreate_of_none hcreated] at h
      cases h
      rw [contract_of_error (show retNotEnoughMemory ≠ retOk by decide)]
      exact ⟨fun _ => nofun, fun _ => ⟨rfl, rfl, rfl⟩⟩
    | some x =>
      obtain ⟨pConfig, cs⟩ := x
      have hram := objCreate_ne hcreated hm.few
      rw [hcreated] at h
      dsimp only at h
      split at h
      next => cases h
      next u₁ hunit =>
        cases h
        have ho := outcome hunit
        rw [contract_of_error (show retNotEnoughMemory ≠ retOk by decide)]
        constructor
        · rintro ⟨hsame, -⟩
          exact absurd (ho.ram.symm.trans hsame) hram
        · intro hall
          have hmade := (ho.made (hall _ rfl).made).1
          cases hmade
      next pObj u₁ hunit =>
        obtain ⟨⟨rs, u₂⟩, hchildren, heq⟩ := Option.map_eq_some_iff.mp h
        cases heq
        have ho := outcome hunit
        obtain rfl := (ho.live rfl).1
        have hslots (hlength : cs.length = m.pChild.length) :
            List.Forall₂ (ChildOf pConfig.nID) m.pChild cs := by
          have hall := objCreated_childOf hcreated (hlength.trans hm.count.symm)
          rwa [hm.count, map_getD_range] at hall
        rw [contract_of_ok]
        simp only [Option.mem_def, Option.some.injEq, exists_eq_left', forall_eq']
        rw [complete_iff ho rfl hchildren hm.some hm.words hslots, objCreated_config hcreated, hid]
        exact ⟨fun ⟨h₁, h₂, h₃, h₄, h₅⟩ => ⟨h₁, h₂, h₃, h₄, h₅⟩,
          fun ⟨h₁, h₂, h₃, h₄, h₅⟩ => ⟨h₁, h₂, h₃, h₄, h₅⟩⟩

end Contract

end Units

end EdgeNode.Obj
