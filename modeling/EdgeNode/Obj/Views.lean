import EdgeNode.Obj.Family
import EdgeNode.Obj.Registry
import EdgeNode.Types

/-! The views of the registry: `FTE_OBJ_getAt`, `FTE_OBJ_count`, `FTE_OBJ_getList` and
`FTE_OBJ_getIDList`, each a traversal of its own, and `FTE_OBJ_getChild`. -/

namespace EdgeNode.Obj

def objSystem : UInt32 := 0x80000000
def objTypeUnknown : UInt32 := 0x7FFFFFFF

/-- `FTE_OBJ_comaratorID`. -/
def comaratorID (nID1 nID2 : UInt32) : Int :=
  let ulID1 := nID1 &&& idMask
  let ulID2 := nID2 &&& idMask
  if ulID1 < ulID2 then -1 else if ulID1 > ulID2 then 1 else 0

structure Filter where
  nType : UInt32
  nMask : UInt32
  bSystem : Bool

/-- The test that the four traversals make of an identifier. -/
def Filter.listed (f : Filter) (nID : UInt32) : Bool :=
  (f.bSystem || nID &&& objSystem == 0) &&
    (f.nType == objTypeUnknown || nID &&& f.nMask == f.nType &&& f.nMask)

section Traversals

variable {ο α : Type} (id : ο → UInt32) (f : Filter)

/-- The loop of `FTE_OBJ_getAt` with `ulIndex` objects still to be passed over. -/
def getAtFrom : List ο → Nat → Option ο
  | [], _ => none
  | pObj :: l, ulIndex =>
    if f.listed (id pObj) then
      if ulIndex = 0 then some pObj else getAtFrom l (ulIndex - 1)
    else getAtFrom l ulIndex

def countFrom : List ο → Nat → Nat
  | [], ulCount => ulCount
  | pObj :: l, ulCount => countFrom l (if f.listed (id pObj) then ulCount + 1 else ulCount)

/-- The loop of `FTE_OBJ_getList` and `FTE_OBJ_getIDList`, which differ in what they store. -/
def collectFrom (store : ο → α) (nMaxCount : Nat) : List ο → List α → List α
  | [], stored => stored
  | pObj :: l, stored =>
    if stored.length ≥ nMaxCount then stored
    else if f.listed (id pObj) then collectFrom store nMaxCount l (stored ++ [store pObj])
    else collectFrom store nMaxCount l stored

variable {id f}

theorem getAtFrom_eq (l : List ο) (ulIndex : Nat) :
    getAtFrom id f l ulIndex = (l.filter fun p => f.listed (id p))[ulIndex]? := by
  induction l generalizing ulIndex with
  | nil => rfl
  | cons pObj l ih =>
    rw [getAtFrom, List.filter_cons]
    split
    · cases ulIndex with
      | zero => rfl
      | succ k => exact ih k
    · exact ih ulIndex

theorem countFrom_eq (l : List ο) (ulCount : Nat) :
    countFrom id f l ulCount = ulCount + (l.filter fun p => f.listed (id p)).length := by
  induction l generalizing ulCount with
  | nil => rfl
  | cons pObj l ih =>
    rw [countFrom, ih, List.filter_cons]
    split
    · rw [List.length_cons]
      omega
    · rfl

theorem collectFrom_eq (store : ο → α) (nMaxCount : Nat) (l : List ο) (stored : List α) :
    collectFrom id f store nMaxCount l stored = stored ++
      ((l.filter fun p => f.listed (id p)).map store).take (nMaxCount - stored.length) := by
  induction l generalizing stored with
  | nil => simp [collectFrom]
  | cons pObj l ih =>
    rw [collectFrom, List.filter_cons]
    by_cases hfull : stored.length ≥ nMaxCount
    · rw [if_pos hfull, Nat.sub_eq_zero_of_le hfull, List.take_zero, List.append_nil]
    · have hroom : nMaxCount - stored.length = (nMaxCount - (stored.length + 1)) + 1 := by omega
      rw [if_neg hfull]
      split
      · rw [ih, List.map_cons, hroom, List.take_succ_cons, List.length_append, List.length_singleton,
          List.append_assoc]
        rfl
      · exact ih stored

end Traversals

section Order

variable {ο : Type} {id : ο → UInt32}

theorem comaratorID_le {nID1 nID2 : UInt32} :
    comaratorID nID1 nID2 ≤ 0 ↔ nID1 &&& idMask ≤ nID2 &&& idMask := by
  unfold comaratorID
  dsimp only
  split
  next h => exact iff_of_true (by decide) (UInt32.le_of_lt h)
  next h =>
    split
    next hgt => exact iff_of_false (by decide) (UInt32.not_le.mpr hgt)
    next hle => exact iff_of_true (by decide) (UInt32.not_lt.mp hle)

/-- No object stands before one that the comparator puts first. -/
def Ordered (id : ο → UInt32) (l : List ο) : Prop :=
  l.Pairwise fun p q => comaratorID (id p) (id q) ≤ 0

theorem Ordered.congr {id' : ο → UInt32} {l : List ο} (h : Ordered id l)
    (hid : ∀ p ∈ l, id' p = id p) : Ordered id' l := by
  refine List.Pairwise.imp_of_mem ?_ h
  intro p q hp hq hle
  rwa [hid p hp, hid q hq]

theorem Ordered.pushSort {l : List ο} (h : Ordered id l) (o : ο) : Ordered id (pushSort id o l) := by
  induction l with
  | nil => exact List.pairwise_singleton _ o
  | cons p ps ih =>
    obtain ⟨hfirst, hrest⟩ := List.pairwise_cons.mp h
    rw [Obj.pushSort]
    split
    next hlt =>
      refine List.pairwise_cons.mpr ⟨fun q hq => ?_, h⟩
      rw [comaratorID_le]
      rcases List.mem_cons.mp hq with rfl | hq
      · exact UInt32.le_of_lt hlt
      · exact UInt32.le_trans (UInt32.le_of_lt hlt) (comaratorID_le.mp (hfirst q hq))
    next hge =>
      refine List.pairwise_cons.mpr ⟨fun q hq => ?_, ih hrest⟩
      rcases List.mem_cons.mp ((World.pushSort_perm id o ps).mem_iff.mp hq) with rfl | hq
      · exact comaratorID_le.mpr (UInt32.not_lt.mp hge)
      · exact hfirst q hq

end Order

namespace World

open Runs

variable {ο ε : Type}

def getAt (w : World ο ε) (f : Filter) (ulIndex : Nat) : Option ο :=
  getAtFrom w.nID f w.xObjList ulIndex

def count (w : World ο ε) (f : Filter) : Nat := countFrom w.nID f w.xObjList 0

/-- `FTE_OBJ_getList`, which passes over the system objects. -/
def getList (w : World ο ε) (nType nMask : UInt32) (nMaxCount : Nat) : List ο :=
  collectFrom w.nID ⟨nType, nMask, false⟩ (fun pObj => pObj) nMaxCount w.xObjList []

def getIDList (w : World ο ε) (nType nMask : UInt32) (nMaxCount : Nat) : Ret × List UInt32 × Nat :=
  let pObjIDs := collectFrom w.nID ⟨nType, nMask, false⟩ w.nID nMaxCount w.xObjList []
  (retOk, pObjIDs, pObjIDs.length)

def view (w : World ο ε) (f : Filter) : List ο := w.xObjList.filter fun p => f.listed (w.nID p)

/-- The registry lists live objects, each once, and in order. -/
structure Catalogued (w : World ο ε) : Prop where
  live : ∀ o ∈ w.xObjList, (w.kin o).isSome
  nodup : w.xObjList.Nodup
  ordered : Ordered w.nID w.xObjList

structure ViewsAgree (w : World ο ε) (f : Filter) : Prop where
  getAt : ∀ i, w.getAt f i = (w.view f)[i]?
  count : ∀ i, (w.getAt f i).isSome ↔ i < w.count f
  getList : f.bSystem = false → ∀ nMaxCount,
    w.getList f.nType f.nMask nMaxCount = (w.view f).take (min nMaxCount (w.count f))
  getIDList : f.bSystem = false → ∀ nMaxCount, w.getIDList f.nType f.nMask nMaxCount =
    (retOk, ((w.view f).take (min nMaxCount (w.count f))).map w.nID, min nMaxCount (w.count f))
  ordered : Ordered w.nID (w.view f)
  live : ∀ o ∈ w.view f, (w.objects o).isSome

theorem nID_eq (w : World ο ε) (o : ο) : w.nID o = ((w.kin o).map fun k => k.2.2).getD 0 := by
  rw [nID, kin, Option.map_map]
  rfl

theorem count_eq (w : World ο ε) (f : Filter) : w.count f = (w.view f).length := by
  rw [count, countFrom_eq, Nat.zero_add, view]

theorem Catalogued.viewsAgree {w : World ο ε} (h : w.Catalogued) (f : Filter) : w.ViewsAgree f where
  getAt i := getAtFrom_eq w.xObjList i
  count i := by
    rw [World.getAt, getAtFrom_eq, count_eq, Option.isSome_iff_ne_none, Ne, List.getElem?_eq_none_iff,
      Nat.not_le]
    rfl
  getList hs nMaxCount := by
    obtain ⟨nType, nMask, bSystem⟩ := f
    obtain rfl : bSystem = false := hs
    rw [World.getList, collectFrom_eq, count_eq, List.map_id', List.length_nil, Nat.sub_zero,
      List.nil_append, ← List.take_eq_take_min]
    rfl
  getIDList hs nMaxCount := by
    obtain ⟨nType, nMask, bSystem⟩ := f
    obtain rfl : bSystem = false := hs
    have hids : collectFrom w.nID ⟨nType, nMask, false⟩ w.nID nMaxCount w.xObjList [] =
        ((w.view ⟨nType, nMask, false⟩).take (min nMaxCount (w.count ⟨nType, nMask, false⟩))).map
          w.nID := by
      rw [collectFrom_eq, count_eq, List.length_nil, Nat.sub_zero, List.nil_append,
        ← List.take_eq_take_min, List.map_take]
      rfl
    rw [World.getIDList, hids, List.length_map, List.length_take, ← count_eq]
    simp
  ordered := h.ordered.filter _
  live o ho := by
    have hlive := h.live o (List.mem_filter.mp ho).1
    rwa [kin, Option.isSome_map] at hlive

theorem Start.catalogued {w : World ο ε} (h : w.Start) : w.Catalogued := by
  have hx := h.lists.1
  exact ⟨by simp [hx], by simp [hx], by simp [hx, Ordered]⟩

theorem Catalogued.of_eq {w w' : World ο ε} (h : w.Catalogued) (hk : w'.kin = w.kin)
    (hx : w'.xObjList = w.xObjList) : w'.Catalogued := by
  refine ⟨by rw [hx, hk]; exact h.live, by rw [hx]; exact h.nodup, ?_⟩
  rw [hx]
  exact h.ordered.congr fun p _ => by rw [nID_eq, nID_eq, hk]

variable [DecidableEq ο]

theorem Catalogued.insert {w w' : World ο ε} (h : w.Catalogued) {o : ο} (ho : w.objects o = none)
    {k : Desc × Option ο × UInt32} (hk : w'.kin = Function.update w.kin o (some k))
    (hx : w'.xObjList = pushSort w'.nID o w.xObjList) : w'.Catalogued := by
  have hdead : w.kin o = none := by simp [kin, ho]
  have hout : o ∉ w.xObjList := fun hm => by simpa [hdead] using h.live o hm
  have hkeep : ∀ p ∈ w.xObjList, w'.kin p = w.kin p := by
    intro p hp
    have hne : p ≠ o := fun hpo => hout (hpo ▸ hp)
    rw [hk, Function.update_of_ne hne]
  have hperm := pushSort_perm w'.nID o w.xObjList
  refine ⟨fun p hp => ?_, ?_, ?_⟩
  · rw [hx] at hp
    rcases List.mem_cons.mp (hperm.mem_iff.mp hp) with rfl | hp
    · rw [hk, Function.update_self]
      rfl
    · rw [hkeep p hp]
      exact h.live p hp
  · rw [hx]
    exact hperm.nodup_iff.mpr (List.nodup_cons.mpr ⟨hout, h.nodup⟩)
  · have hold : Ordered w'.nID w.xObjList :=
      h.ordered.congr fun p hp => by rw [nID_eq, nID_eq, hkeep p hp]
    rw [hx]
    exact hold.pushSort o

theorem Catalogued.remove {w w' : World ο ε} (h : w.Catalogued) {o : ο}
    (hk : w'.kin = Function.update w.kin o none) (hx : w'.xObjList = w.xObjList.erase o) :
    w'.Catalogued := by
  have hkeep : ∀ p ∈ w.xObjList.erase o, w'.kin p = w.kin p := by
    intro p hp
    rw [hk, Function.update_of_ne (h.nodup.mem_erase_iff.mp hp).1]
  refine ⟨fun p hp => ?_, ?_, ?_⟩
  · rw [hx] at hp
    rw [hkeep p hp]
    exact h.live p (List.mem_of_mem_erase hp)
  · rw [hx]
    exact h.nodup.erase o
  · have hold : Ordered w.nID (w.xObjList.erase o) := List.Pairwise.sublist List.erase_sublist h.ordered
    rw [hx]
    exact hold.congr fun p hp => by rw [nID_eq, nID_eq, hkeep p hp]

variable {desc : UInt32 → Option Desc} [DecidableEq ε]

theorem Catalogued.step {w w' : World ο ε} (h : w.Catalogued) {a : Action ο ε}
    (hs : w.step desc a = some w') : w'.Catalogued := by
  cases a with
  | create o c =>
    obtain ⟨ho, rfl⟩ := step_create.mp hs
    obtain heq | ⟨d, e, w', hd, ha, ⟨-, heq⟩ | ⟨hp, heq⟩⟩ := w.create_cases desc o c
    · rw [heq]
      exact h
    · rw [heq]
      exact h.of_eq (fAttach_kin ha).1 (fAttach_lists ha).2.2.1
    · refine h.insert ho (create_inserted_kin hd ha hp).1 ?_
      rw [heq, ← (fAttach_lists ha).2.2.1]
      rfl
  | destroy o =>
    obtain ⟨e, he, rfl⟩ := step_destroy.mp hs
    exact h.remove (destroy_kin w he).1 (destroy_lists w o e).2.1
  | _ =>
    obtain ⟨u, v, os, rfl, rfl | ⟨p, e, vs, he, rfl⟩⟩ := step_links hs nofun nofun
    · exact h.of_eq rfl rfl
    · exact h.of_eq (kin_setEvents he vs).1 rfl

/-- In every state of a run the views of the registry agree, for every type and mask. -/
theorem views_agree {w u : World ο ε} (hw : w.Start) {acts : List (Action ο ε)}
    (hu : Visits (step desc) w acts u) (f : Filter) : u.ViewsAgree f := by
  have hinv : u.Catalogued := inv_of_takes (G := fun _ _ => True) hw.catalogued
    (fun _ _ _ h _ hs => h.step hs) (fun _ _ _ => trivial) hu
  exact hinv.viewsAgree f

end World

section Children

/-- The group of an object, in the bits where `FTE_CFG_OBJ_create` puts it. -/
def groupOf (nID : UInt32) : UInt32 := (nID &&& 0x0000FF00) >>> 8

namespace World

variable {ο ε : Type} [DecidableEq ο]

/-- `FTE_OBJ_getChild`; `fGetChild` is that of the driver, where it has one. The object that
`FTE_OBJ_getAt` finds goes to a variable of the branch. -/
def getChild (w : World ο ε) (pObj : ο) (fGetChild : Option (Nat → Ret × UInt32)) (ulIndex : Nat) :
    Ret × Option ο :=
  let found := fun (pChild : Option ο) => match pChild with
    | some pChild => (retOk, some pChild)
    | none => (retObjectNotFound, none)
  match fGetChild with
  | some fGetChild =>
    let (xRet, xChildID) := fGetChild ulIndex
    if xRet ≠ retOk then (xRet, none) else found (w.get xChildID)
  | none =>
    let ulGroupID := (w.nID pObj &&& 0x00FF0000) >>> 8
    let _pChild := w.getAt ⟨ulGroupID, 0x0000FF00, false⟩ ulIndex
    found none

/-- The other registered objects of the group of an object. -/
def groupMembers (w : World ο ε) (pObj : ο) : List ο :=
  w.xObjList.filter fun p => p ≠ pObj ∧ groupOf (w.nID p) = groupOf (w.nID pObj)

/-- What the enumeration of the children is to give. -/
def childAt (w : World ο ε) (pObj : ο) (ulIndex : Nat) : Ret × Option ο :=
  match (w.groupMembers pObj)[ulIndex]? with
  | some pChild => (retOk, some pChild)
  | none => (retObjectNotFound, none)

/-- Without an `fGetChild` the children are enumerated right exactly past their number. -/
theorem getChild_eq_childAt_iff (w : World ο ε) (pObj : ο) (ulIndex : Nat) :
    w.getChild pObj none ulIndex = w.childAt pObj ulIndex ↔
      (w.groupMembers pObj).length ≤ ulIndex := by
  have hnone : w.getChild pObj none ulIndex = (retObjectNotFound, none) := rfl
  rw [hnone, childAt]
  rcases Nat.lt_or_ge ulIndex (w.groupMembers pObj).length with hlt | hle
  · rw [List.getElem?_eq_getElem hlt]
    exact iff_of_false (fun h => nomatch congrArg Prod.snd h) (Nat.not_le.mpr hlt)
  · rw [List.getElem?_eq_none hle]
    exact iff_of_true rfl hle

end World

end Children

namespace World

section Runs

open Runs

/-- A digital input, a system object, and a unit whose class comes last, created in another order. -/
theorem views_agree_three :
    ∃ u, exec (step someTypes) [.create 3 (created 0x7E020001), .create 1 (created 0x05000002),
      .create 2 (created 0x85000001), .destroy 1] empty = some u ∧
      u.xObjList = [2, 3] ∧ u.ViewsAgree ⟨0x7E000000, 0x7F000000, false⟩ := by
  obtain ⟨u, hu, hx⟩ : ∃ u, exec (step someTypes) [.create 3 (created 0x7E020001),
      .create 1 (created 0x05000002), .create 2 (created 0x85000001), .destroy 1] empty = some u ∧
        u.xObjList = [2, 3] := ⟨_, rfl, by decide⟩
  exact ⟨u, hu, hx, views_agree start_empty ⟨_, List.prefix_rfl, hu⟩ _⟩

/-- A digital input and a digital output of the group 1. -/
theorem getChild_misses :
    ∃ u, exec (step someTypes) [.create 1 (created 0x05000101), .create 2 (created 0x06000101)] empty =
        some u ∧
      u.groupMembers 1 = [2] ∧ u.getChild 1 none 0 ≠ u.childAt 1 0 :=
  ⟨_, rfl, by decide, by decide⟩

end Runs

end World

end EdgeNode.Obj
