import EdgeNode.Config.Store

/-! What the defaults and the setters leave of identifiers, tags and flags. -/

namespace EdgeNode.Config

/-- The identifiers stay, a tag that is set stays set, and so does a flag. -/
structure Keeps (r t : Ram) : Prop where
  nID : ∀ k, (t.page k).nID = (r.page k).nID
  tag : ∀ k, (r.page k).ulTag = poolVersion → (t.page k).ulTag = poolVersion
  modified : ∀ k, r.modified k = true → t.modified k = true

theorem Keeps.refl (r : Ram) : Keeps r r := ⟨fun _ => rfl, fun _ h => h, fun _ h => h⟩

theorem Keeps.trans {r t u : Ram} (h : Keeps r t) (h' : Keeps t u) : Keeps r u :=
  ⟨fun k => (h'.nID k).trans (h.nID k), fun k ht => h'.tag k (h.tag k ht),
    fun k hm => h'.modified k (h.modified k hm)⟩

theorem keeps_change (r : Ram) (k : Kind) (f : Body k → Body k) : Keeps r (r.change k f) := by
  refine ⟨fun j => ?_, fun j h => ?_, fun j h => h⟩ <;> by_cases hj : j = k
  · subst hj
    simp [Ram.change]
  · simp [Ram.change, hj]
  · subst hj
    simpa [Ram.change] using h
  · simpa [Ram.change, hj] using h

theorem keeps_modify (r : Ram) (k : Kind) (f : Body k → Body k) : Keeps r (r.modify k f) := by
  have h := keeps_change r k f
  refine ⟨h.nID, h.tag, fun j hm => ?_⟩
  by_cases hj : j = k
  · subst hj
    simp [Ram.modify]
  · simpa [Ram.modify, hj] using hm

theorem keeps_setTag (r : Ram) (k : Kind) : Keeps r (r.setTag k) := by
  refine ⟨fun j => ?_, fun j h => ?_, fun j h => h⟩ <;> by_cases hj : j = k
  · subst hj
    simp [Ram.setTag]
  · simp [Ram.setTag, hj]
  · subst hj
    simp [Ram.setTag]
  · simpa [Ram.setTag, hj] using h

@[simp] theorem setTag_ulTag (r : Ram) (k : Kind) : ((r.setTag k).page k).ulTag = poolVersion := by
  simp [Ram.setTag]

variable (product : Product)

theorem Setter.keeps (x : Setter) (r : Ram) : Keeps r (x.apply product r) := by
  rcases x.apply_cases product r with h | ⟨k, f, h⟩ | ⟨-, k, f, h⟩
  · rw [h]
    exact .refl r
  · rw [h]
    exact keeps_modify r k f
  · rw [h]
    exact keeps_change r k f

theorem keeps_setters (xs : List Setter) (r : Ram) :
    Keeps r (xs.foldl (fun r x => x.apply product r) r) := by
  induction xs generalizing r with
  | nil => exact .refl r
  | cons x xs ih => exact (x.keeps product r).trans (ih _)

theorem createObjects_eq (r : Ram) : createObjects product r =
    (product.pObjects.map fun o => Setter.objCreate o.1 o.2).foldl
      (fun r x => x.apply product r) r := by
  rw [List.foldl_map]
  rfl

theorem createEvents_eq (r : Ram) : createEvents product r =
    (product.pEvents.map Setter.eventCreate).foldl (fun r x => x.apply product r) r := by
  rw [List.foldl_map]
  rfl

theorem keeps_createObjects (r : Ram) : Keeps r (createObjects product r) := by
  rw [createObjects_eq]
  exact keeps_setters product _ r

theorem keeps_createEvents (r : Ram) : Keeps r (createEvents product r) := by
  rw [createEvents_eq]
  exact keeps_setters product _ r

theorem keeps_setSections (r : Ram) : Keeps r (setSections product r) :=
  keeps_setters product [.sysSet product.pSystem, .shellSet product.pShell,
    .netSet product.pNetwork] r

theorem keeps_extInit (r : Ram) : Keeps r (extInit product r).2 :=
  (keeps_setTag r .ext).trans (keeps_modify _ .ext (extDefaults product))

theorem keeps_initDefaults (k : Kind) (r : Ram) : Keeps r (initDefaults product k r) := by
  unfold initDefaults
  split
  · cases k with
    | main =>
      refine (keeps_setTag r .main).trans ?_
      exact (keeps_change _ .main (setModel product)).trans (keeps_setSections product _)
    | object => exact (keeps_setTag r .object).trans (keeps_createObjects product _)
    | event => exact (keeps_setTag r .event).trans (keeps_createEvents product _)
    | ext => exact keeps_extInit product r
  · exact .refl r

theorem initDefaults_tag {k : Kind} {r : Ram}
    (h : (r.page k).nID ≠ 0 → (r.page k).ulTag = poolVersion) :
    ((initDefaults product k r).page k).ulTag = poolVersion := by
  unfold initDefaults
  split
  · cases k with
    | main =>
      refine ((keeps_change _ .main (setModel product)).trans ?_).tag .main (setTag_ulTag r .main)
      exact keeps_setSections product _
    | object => exact (keeps_createObjects product _).tag .object (setTag_ulTag r .object)
    | event => exact (keeps_createEvents product _).tag .event (setTag_ulTag r .event)
    | ext => exact (keeps_modify _ .ext (extDefaults product)).tag .ext (setTag_ulTag r .ext)
  · rename_i hn
    exact h hn

theorem modified_setSections (r : Ram) : (setSections product r).modified .main = true := by
  simp [setSections, netSet, Ram.modify]

theorem keeps_fillLater (r : Ram) :
    Keeps (setSections product (r.setTag .main)) (fillDefaults product r) := by
  unfold fillDefaults
  refine ((keeps_setTag _ .object).trans (keeps_createObjects product _)).trans ?_
  refine ((keeps_setTag _ .event).trans (keeps_createEvents product _)).trans ?_
  exact keeps_extInit product _

theorem fillDefaults_keeps (r : Ram) : Keeps r (fillDefaults product r) :=
  ((keeps_setTag r .main).trans (keeps_setSections product _)).trans (keeps_fillLater product r)

theorem fillDefaults_modified (r : Ram) : (fillDefaults product r).modified .main = true :=
  (keeps_fillLater product r).modified .main (modified_setSections product _)

theorem fillDefaults_tag (r : Ram) (k : Kind) :
    ((fillDefaults product r).page k).ulTag = poolVersion := by
  cases k with
  | main =>
    refine (keeps_fillLater product r).tag .main ?_
    exact (keeps_setSections product _).tag .main (setTag_ulTag r .main)
  | object =>
    unfold fillDefaults
    refine (((keeps_setTag _ .event).trans (keeps_createEvents product _)).trans
      (keeps_extInit product _)).tag .object ?_
    exact (keeps_createObjects product _).tag .object (setTag_ulTag _ .object)
  | event =>
    refine (keeps_extInit product _).tag .event ?_
    exact (keeps_createEvents product _).tag .event (setTag_ulTag _ .event)
  | ext => exact (keeps_modify _ .ext (extDefaults product)).tag .ext (setTag_ulTag _ .ext)

theorem clear_nID (r : Ram) (k : Kind) : ((clear product r).page k).nID = 0 := by
  rw [clear, (fillDefaults_keeps product _).nID]
  cases k <;> simp [kinds, Ram.clearPage, zeroPage]

theorem clearObject_nID (r : Ram) (k : Kind) :
    ((clearObject product r).page k).nID = if k = .main then (r.page k).nID else 0 := by
  rw [clearObject, (fillDefaults_keeps product _).nID]
  cases k <;> simp [Ram.clearPage, zeroPage]

structure Agree (k : Kind) (r t : Ram) : Prop where
  page : t.page k = r.page k
  modified : t.modified k = r.modified k

theorem Agree.refl (k : Kind) (r : Ram) : Agree k r r := ⟨rfl, rfl⟩

theorem Agree.trans {k : Kind} {r t u : Ram} (h : Agree k r t) (h' : Agree k t u) : Agree k r u :=
  ⟨h'.page.trans h.page, h'.modified.trans h.modified⟩

/-- The function reads and writes one pool. -/
structure Local (k : Kind) (f : Ram → Ram) : Prop where
  frame : ∀ r j, j ≠ k → Agree j r (f r)
  congr : ∀ r t, Agree k r t → Agree k (f r) (f t)

theorem local_id (k : Kind) : Local k id := ⟨fun r j _ => .refl j r, fun _ _ h => h⟩

theorem Local.comp {k : Kind} {f g : Ram → Ram} (hf : Local k f) (hg : Local k g) :
    Local k fun r => g (f r) where
  frame r j hj := (hf.frame r j hj).trans (hg.frame _ j hj)
  congr r t h := hg.congr _ _ (hf.congr r t h)

theorem local_modify (k : Kind) (f : Body k → Body k) : Local k (Ram.modify k f) where
  frame r j hj := ⟨by simp [Ram.modify, hj], by simp [Ram.modify, hj]⟩
  congr r t h := ⟨by simp [Ram.modify, h.page], by simp [Ram.modify]⟩

theorem local_change (k : Kind) (f : Body k → Body k) : Local k (Ram.change k f) where
  frame r j hj := ⟨by simp [Ram.change, hj], rfl⟩
  congr r t h := ⟨by simp [Ram.change, h.page], h.modified⟩

theorem local_setTag (k : Kind) : Local k (Ram.setTag k) where
  frame r j hj := ⟨by simp [Ram.setTag, hj], rfl⟩
  congr r t h := ⟨by simp [Ram.setTag, h.page], h.modified⟩

theorem local_of_page {k : Kind} {f : Page (Body k) → Ram → Ram} (h : ∀ p, Local k (f p)) :
    Local k fun r => f (r.page k) r where
  frame r j hj := (h _).frame r j hj
  congr r t ht := by
    rw [ht.page]
    exact (h _).congr r t ht

theorem local_foldl {α : Type} {k : Kind} {f : Ram → α → Ram} (h : ∀ x, Local k fun r => f r x)
    (l : List α) : Local k fun r => l.foldl f r := by
  induction l with
  | nil => exact local_id k
  | cons x l ih => exact (h x).comp ih

theorem local_objCreate (pBase : ObjectConfig) (pChild : Nat → ObjectConfig) :
    Local .object fun r => (objCreate product pBase pChild r).2 where
  frame r j hj := by
    unfold objCreate
    split <;> dsimp only
    · exact .refl j r
    · exact (local_modify .object _).frame r j hj
  congr r t h := by
    simp only [objCreate, h.page]
    split <;> dsimp only
    · exact h
    · exact (local_modify .object _).congr r t h

theorem local_eventCreate (pConfig : EventConfig) :
    Local .event fun r => eventCreate product pConfig r where
  frame r j hj := by
    unfold eventCreate
    split
    · exact .refl j r
    · exact (local_modify .event _).frame r j hj
  congr r t h := by
    simp only [eventCreate, h.page]
    split
    · exact h
    · exact (local_modify .event _).congr r t h

theorem local_setSections : Local .main (setSections product) := by
  have hsys := local_modify .main fun p : MainPool => { p with xSystem := product.pSystem }
  have hshell := local_modify .main fun p : MainPool => { p with xShell := product.pShell }
  exact (hsys.comp hshell).comp (local_modify .main fun p => { p with xNetwork := product.pNetwork })

theorem local_createObjects : Local .object (createObjects product) :=
  local_foldl (fun o : ObjectConfig × (Nat → ObjectConfig) => local_objCreate product o.1 o.2)
    product.pObjects

theorem local_createEvents : Local .event (createEvents product) :=
  local_foldl (local_eventCreate product) product.pEvents

theorem local_extInit : Local .ext fun r => (extInit product r).2 :=
  (local_setTag .ext).comp (local_modify .ext (extDefaults product))

theorem local_initDefaults (k : Kind) : Local k (initDefaults product k) := by
  have hif : ∀ {j : Kind} {f : Ram → Ram}, Local j f →
      Local j fun r => if (r.page j).nID = 0 then f r else r := by
    intro j f hf
    refine local_of_page (f := fun p r => if p.nID = 0 then f r else r) fun p => ?_
    split
    · exact hf
    · exact local_id j
  cases k with
  | main =>
    have hmodel := (local_setTag .main).comp (local_change .main (setModel product))
    exact hif (hmodel.comp (local_setSections product))
  | object => exact hif ((local_setTag .object).comp (local_createObjects product))
  | event => exact hif ((local_setTag .event).comp (local_createEvents product))
  | ext => exact hif (local_extInit product)

theorem agree_foldl_initDefaults {k : Kind} {r t : Ram} (h : Agree k r t) (ks : List Kind) :
    Agree k (ks.foldl (fun r k => initDefaults product k r) r)
      (ks.foldl (fun r k => initDefaults product k r) t) := by
  induction ks generalizing r t with
  | nil => exact h
  | cons j ks ih =>
    refine ih ?_
    by_cases hj : k = j
    · subst hj
      exact (local_initDefaults product k).congr r t h
    · have hr := (local_initDefaults product j).frame r k hj
      have ht := (local_initDefaults product j).frame t k hj
      exact ⟨by rw [ht.page, hr.page, h.page], by rw [ht.modified, hr.modified, h.modified]⟩

theorem agree_of_found {k : Kind} {r : Ram} (h : (r.page k).nID ≠ 0) (ks : List Kind) :
    Agree k r (ks.foldl (fun r k => initDefaults product k r) r) := by
  induction ks generalizing r with
  | nil => exact .refl k r
  | cons j ks ih =>
    have hj : Agree k r (initDefaults product j r) := by
      by_cases hkj : k = j
      · subst hkj
        rw [initDefaults.eq_def, if_neg h]
        exact .refl k r
      · exact (local_initDefaults product j).frame r k hkj
    exact hj.trans (ih (by rw [hj.page]; exact h))

end EdgeNode.Config
