import EdgeNode.Nxjson.InPlace

/-! The values read in place, and the tree that the parser hands out. -/

namespace EdgeNode.Nxjson

open CString

variable {δ : Type}

section Trees

/-- The value is the one that was read, and a string stands in the buffer. -/
inductive HeldValue (buf : List UInt8) : Value δ Nat → Value δ (List UInt8) → Prop
  | null : HeldValue buf .null .null
  | object : HeldValue buf .object .object
  | array : HeldValue buf .array .array
  | string {i : Nat} {s : List UInt8} (h : Held buf i s) : HeldValue buf (.string i) (.string s)
  | integer (i : Int64) (x : δ) : HeldValue buf (.integer i x) (.integer i x)
  | double (i : Int64) (x : δ) : HeldValue buf (.double i x) (.double i x)
  | bool (i : Int64) : HeldValue buf (.bool i) (.bool i)

mutual

inductive HeldNode (buf : List UInt8) : Node δ Nat → Node δ (List UInt8) → Prop
  | mk {key : Option Nat} {key' : Option (List UInt8)} {type : Value δ Nat}
      {type' : Value δ (List UInt8)} {child : List (Node δ Nat)}
      {child' : List (Node δ (List UInt8))} (hkey : HeldKey buf key key')
      (htype : HeldValue buf type type') (hchild : HeldNodes buf child child') :
      HeldNode buf (.mk key type child) (.mk key' type' child')

inductive HeldNodes (buf : List UInt8) : List (Node δ Nat) → List (Node δ (List UInt8)) → Prop
  | nil : HeldNodes buf [] []
  | cons {js : Node δ Nat} {js' : Node δ (List UInt8)} {child : List (Node δ Nat)}
      {child' : List (Node δ (List UInt8))} (h : HeldNode buf js js')
      (hchild : HeldNodes buf child child') : HeldNodes buf (js :: child) (js' :: child')

end

variable {seg : List UInt8}

theorem HeldValue.append {v : Value δ Nat} {v' : Value δ (List UInt8)} (h : HeldValue seg v v')
    (more : List UInt8) : HeldValue (seg ++ more) v v' := by
  cases h with
  | null => exact .null
  | object => exact .object
  | array => exact .array
  | string h => exact .string (h.append more)
  | integer => exact .integer _ _
  | double => exact .double _ _
  | bool => exact .bool _

theorem HeldNode.append {js : Node δ Nat} {js' : Node δ (List UInt8)} (h : HeldNode seg js js')
    (more : List UInt8) : HeldNode (seg ++ more) js js' :=
  @HeldNode.rec δ seg (fun js js' _ => HeldNode (seg ++ more) js js')
    (fun child child' _ => HeldNodes (seg ++ more) child child')
    (fun hkey htype _ hchild => .mk (hkey.append more) (htype.append more) hchild) .nil
    (fun _ _ h hchild => .cons h hchild) js js' h

theorem HeldNodes.append {child : List (Node δ Nat)} {child' : List (Node δ (List UInt8))}
    (h : HeldNodes seg child child') (more : List UInt8) : HeldNodes (seg ++ more) child child' := by
  induction child generalizing child' with
  | nil =>
    cases h
    exact .nil
  | cons js child ih =>
    cases h with
    | cons h hchild => exact .cons (h.append more) (ih hchild)

/-- A value may come without a node. -/
def HeldOption (buf : List UInt8) (js : Option (Node δ Nat)) (js' : Option (Node δ (List UInt8))) :
    Prop := HeldNodes buf js.toList js'.toList

theorem HeldOption.append {js : Option (Node δ Nat)} {js' : Option (Node δ (List UInt8))}
    (h : HeldOption seg js js') (more : List UInt8) : HeldOption (seg ++ more) js js' :=
  HeldNodes.append h more

theorem HeldOption.some {js : Node δ Nat} {js' : Node δ (List UInt8)} (h : HeldNode seg js js') :
    HeldOption seg (some js) (some js') := .cons h .nil

theorem HeldOption.none : HeldOption seg (none : Option (Node δ Nat)) none := .nil

theorem HeldOption.cons {js : Option (Node δ Nat)} {js' : Option (Node δ (List UInt8))}
    {child : List (Node δ Nat)} {child' : List (Node δ (List UInt8))} (h : HeldOption seg js js')
    (hchild : HeldNodes seg child child') :
    HeldNodes seg (js.toList ++ child) (js'.toList ++ child') := by
  cases js <;> cases js' <;> cases h
  · exact hchild
  · exact .cons ‹_› hchild

end Trees

section Runs

/-- What `Outcome` says, and `errno` is the same. -/
def Follows {α β : Type} (found : List UInt8 → α → β → Prop) (pre t T : List UInt8)
    (x : Option (α × Nat) × Memory) (r : Option (β × List UInt8) × Bool) : Prop :=
  x.2.erange = r.2 ∧ Outcome found pre t T (x.1, x.2.buf) r.1

variable {α β : Type} {found : List UInt8 → α → β → Prop} {pre t T : List UInt8}

theorem Outcome.length_le {x : Option (α × Nat) × List UInt8} {b : β} {rest : List UInt8}
    (h : Outcome found pre t T x (some (b, rest))) : rest.length ≤ t.length := by
  cases h with
  | ok ht =>
    rw [ht, List.length_append]
    omega

/-- The text goes on behind `k` of its characters, which stay as they are. -/
theorem Outcome.advance {k : Nat} {a : α} {b : β} (hk : k ≤ t.length)
    (h : found (pre ++ t.take k) a b) :
    Outcome found pre t T (some (a, pre.length + k), pre ++ (t ++ 0 :: T)) (some (b, t.drop k)) := by
  have ho := Outcome.ok (T := T) (List.take_append_drop k t).symm rfl h
  rwa [List.append_assoc, ← List.append_assoc (t.take k), List.take_append_drop,
    List.length_append, List.length_take_of_le hk] at ho

/-- The text goes on behind a mark that it has gone on to. -/
theorem Outcome.close {a : α} {b : β} {w seg rest : List UInt8} {mark : UInt8} (hmark : mark ≠ 0)
    (hhead : rest.headD 0 = mark) (hlen : seg.length = w.length)
    (h : ∀ more, found (pre ++ seg ++ more) a b) :
    Outcome found pre (w ++ rest) T
      (some (a, (pre ++ seg).length + 1), (pre ++ seg) ++ (rest ++ 0 :: T)) (some (b, rest.tail)) := by
  have hpos : 1 ≤ rest.length := by
    cases rest with
    | nil => exact absurd hhead.symm hmark
    | cons c rest => simp
  rw [← List.drop_one]
  exact (Outcome.advance hpos (h _)).shift hlen

/-- The text goes on at a mark, or some of it was read. -/
def Proceeds {γ : Type} (mark : Char) (t : List UInt8) (r : Option (γ × List UInt8)) : Prop :=
  ∀ b rest, r = some (b, rest) → rest.headD 0 = mark.toUInt8 ∨ rest.length < t.length

theorem Outcome.proceeds {x : Option (α × Nat) × List UInt8} {r : Option (β × List UInt8)}
    (h : Outcome found pre t T x r) (mark : Char) (c : UInt8) (w : List UInt8) :
    Proceeds mark (c :: w ++ t) r := by
  rintro b rest rfl
  refine .inr ?_
  have hle := h.length_le
  simp only [List.cons_append, List.length_cons, List.length_append]
  omega

theorem Proceeds.map {γ γ' : Type} {mark : Char} {r : Option (γ × List UInt8)} (g : γ → γ')
    (h : Proceeds mark t r) : Proceeds mark t (r.map fun y => (g y.1, y.2)) := by
  intro b rest hr
  obtain ⟨⟨b', rest'⟩, hr', he⟩ := Option.map_eq_some_iff.mp hr
  obtain ⟨-, rfl⟩ := Prod.mk.inj he
  exact h b' rest' hr'

/-- A result is wrapped up when there is one. -/
theorem Follows.map {α' β' : Type} {found' : List UInt8 → α' → β' → Prop}
    {x : Option (α × Nat) × Memory} {r : Option (β × List UInt8) × Bool} (f : α → α') (g : β → β')
    (h : Follows found pre t T x r)
    (hf : ∀ more a b, found (pre ++ more) a b → found' (pre ++ more) (f a) (g b)) :
    Follows found' pre t T (x.1.map fun y => (f y.1, y.2), x.2)
      (r.1.map fun y => (g y.1, y.2), r.2) := by
  obtain ⟨xo, buf, e⟩ := x
  obtain ⟨ro, e'⟩ := r
  obtain ⟨rfl, ho⟩ := h
  refine ⟨rfl, ?_⟩
  cases ho with
  | error hlen => exact .error hlen
  | ok ht hlen hfound => exact .ok ht hlen (hf _ _ _ hfound)

theorem Follows.shift {w seg : List UInt8} {x : Option (α × Nat) × Memory}
    {r : Option (β × List UInt8) × Bool} (h : Follows found (pre ++ seg) t T x r)
    (hlen : seg.length = w.length) : Follows found pre (w ++ t) T x r :=
  ⟨h.1, h.2.shift hlen⟩

end Runs

section Numbers

variable (d : Doubles δ)

theorem strtoll_le (cs : List Char) : (Numerals.strtoll cs).2.1 ≤ cs.length := by
  unfold Numerals.strtoll
  dsimp only
  split_ifs <;> simp

theorem chars_eq {t : List UInt8} (ht : 0 ∉ t) (pre T : List UInt8) :
    chars (pre ++ (t ++ 0 :: T)) pre.length = some (Reader.chars t) := by
  rw [chars, strlen_append pre T ht, Option.bind_eq_bind, Option.bind_some, List.drop_left,
    List.take_left, Reader.chars]

theorem parseNumber_follows {t : List UInt8} (ht : 0 ∉ t) (pre T : List UInt8) (e : Bool) :
    ∃ x, parseNumber d ⟨pre ++ (t ++ 0 :: T), e⟩ pre.length = some x ∧
      Follows HeldValue pre t T x (Reader.number d t e) := by
  have hint := strtoll_le (Reader.chars t)
  have hdbl := d.strtod_le (Reader.chars t)
  have hlen : (Reader.chars t).length = t.length := List.length_map _
  rw [hlen] at hint hdbl
  rw [parseNumber, chars_eq ht, Option.bind_eq_bind, Option.bind_some, Reader.number]
  generalize Numerals.strtoll (Reader.chars t) = ri at hint ⊢
  generalize d.strtod (Reader.chars t) = rd at hdbl ⊢
  obtain ⟨i, k, e'⟩ := ri
  obtain ⟨y, k', e''⟩ := rd
  dsimp only at hint hdbl ⊢
  by_cases hbad : k = 0 ∨ (e || e') = true
  · rw [if_pos hbad, if_pos hbad]
    exact ⟨_, rfl, rfl, .error rfl⟩
  rw [if_neg hbad, if_neg hbad, getElem?_string pre T hint, Option.bind_eq_bind, Option.bind_some]
  by_cases hgo : goesOn ((t.drop k).headD 0) = true
  · rw [if_pos hgo, if_pos hgo]
    by_cases hbad' : k' = 0 ∨ (e || e' || e'') = true
    · rw [if_pos hbad', if_pos hbad']
      exact ⟨_, rfl, rfl, .error rfl⟩
    · rw [if_neg hbad', if_neg hbad']
      exact ⟨_, rfl, rfl, .advance hdbl (.double i y)⟩
  · rw [if_neg hgo, if_neg hgo]
    exact ⟨_, rfl, rfl, .advance hint (.integer i _)⟩

/-- A number has at least one character. -/
theorem number_lt {t rest : List UInt8} {e : Bool} {v : Value δ (List UInt8)}
    (h : (Reader.number d t e).1 = some (v, rest)) (ht : t ≠ []) : rest.length < t.length := by
  have hdrop : ∀ k, k ≠ 0 → (t.drop k).length < t.length := by
    intro k hk
    have hpos := List.length_pos_of_ne_nil ht
    rw [List.length_drop]
    omega
  unfold Reader.number at h
  dsimp only at h
  split_ifs at h with hbad hgo hbad'
  · cases h
    exact hdrop _ fun hk => hbad' (.inl hk)
  · cases h
    exact hdrop _ fun hk => hbad (.inl hk)

end Numbers

section Words

theorem starts_eq {w : List Char} (hw : 0 ∉ w.map Char.toUInt8) (pre t T : List UInt8) :
    starts (pre ++ (t ++ 0 :: T)) pre.length w = some (decide (w.map Char.toUInt8 <+: t)) := by
  induction w generalizing pre t with
  | nil => simp [starts]
  | cons c w ih =>
    rw [List.map_cons, List.mem_cons, not_or] at hw
    rw [starts]
    cases t with
    | nil =>
      rw [List.nil_append, getElem?_first, Option.bind_eq_bind, Option.bind_some, if_neg hw.1]
      simp
    | cons b t =>
      have hhead : (pre ++ (b :: t ++ 0 :: T))[pre.length]? = some b :=
        getElem?_head pre [] (t ++ 0 :: T) b
      rw [hhead, Option.bind_eq_bind, Option.bind_some]
      simp only [List.map_cons, List.cons_prefix_cons]
      by_cases hc : b = c.toUInt8
      · have hrest := ih hw.2 (pre ++ [b]) t
        rw [List.length_append, List.length_singleton, List.append_assoc,
          List.singleton_append] at hrest
        rw [if_pos hc, List.cons_append, hrest]
        simp [hc]
      · rw [if_neg hc]
        simp [Ne.symm hc]

theorem parseWord_follows {word : String} (hw : 0 ∉ word.toList.map Char.toUInt8)
    {value : Value δ Nat} {value' : Value δ (List UInt8)} {key : Option Nat}
    {key' : Option (List UInt8)} {pre : List UInt8} (hvalue : ∀ buf, HeldValue buf value value')
    (hkey : HeldKey pre key key') (t T : List UInt8) (e : Bool) :
    ∃ x, parseWord word value key ⟨pre ++ (t ++ 0 :: T), e⟩ pre.length = some x ∧
      Follows HeldOption pre t T x (Reader.word word value' key' t, e) := by
  rw [parseWord, starts_eq hw, Option.bind_eq_bind, Option.bind_some, Reader.word]
  by_cases hpre : word.toList.map Char.toUInt8 <+: t
  · have hlen : word.length = (word.toList.map Char.toUInt8).length := by
      rw [List.length_map, String.length_toList]
    rw [if_pos (decide_eq_true hpre), if_pos hpre, hlen]
    refine ⟨_, rfl, rfl, .advance hpre.length_le (.some (.mk (hkey.append _) (hvalue _) .nil))⟩
  · rw [if_neg (by simpa using hpre), if_neg hpre]
    exact ⟨_, rfl, rfl, .error rfl⟩

theorem word_proceeds {word : String} {value : Value δ (List UInt8)} {key : Option (List UInt8)}
    {t : List UInt8} {mark : Char} (hw : word.toList ≠ []) :
    Proceeds mark t (Reader.word word value key t) := by
  intro b rest h
  rw [Reader.word] at h
  split at h
  next hpre =>
    cases h
    have hle := hpre.length_le
    have hpos := List.length_pos_of_ne_nil hw
    rw [List.length_map] at hle
    refine .inr ?_
    rw [List.length_drop, List.length_map]
    omega
  · cases h

end Words

section Keys

variable {encoder : Bool} {t rest : List UInt8}

theorem unescape_le {s : List UInt8} (ht : 0 ∉ t) (h : Reader.unescape encoder t = some (s, rest)) :
    rest.length ≤ t.length := by
  have hrun := unescapes encoder ht (Nat.lt_succ_self t.length) [] [] []
  rw [h] at hrun
  obtain ⟨w, gap, rfl, -⟩ := hrun
  simp

theorem skipComment_some (ht : 0 ∉ t) (h : Reader.skipComment t = some rest) : ∃ w, t = w ++ rest := by
  have hrun := skipComment_skips 0 ht (Nat.lt_succ_self t.length) [] []
  rw [h] at hrun
  obtain ⟨w, hw, -⟩ := hrun
  exact ⟨w, hw⟩

theorem key_proceeds {n : Nat} {r : Option (Option (List UInt8) × List UInt8)} (ht : 0 ∉ t)
    (h : Reader.key encoder n t = some r) : Proceeds '}' t r := by
  induction n generalizing t with
  | zero => cases h
  | succ n ih =>
    cases t with
    | nil =>
      cases h
      rintro b rest ⟨⟩
    | cons c t =>
      rw [List.mem_cons, not_or] at ht
      have hrest : ∀ w rest, t = w ++ rest → Reader.key encoder n rest = some r →
          Proceeds '}' (c :: t) r := by
        rintro w rest rfl hr b rest' rfl
        refine (ih (fun h => ht.2 (List.mem_append_right w h)) hr b rest' rfl).imp_right fun hlt => ?_
        simp only [List.length_cons, List.length_append]
        omega
      rw [Reader.key] at h
      split at h
      · split at h
        · cases h
          rintro b rest ⟨⟩
        next k rest hk =>
          have hle := unescape_le ht.2 hk
          have hdrop := (List.dropWhile_sublist isWhitespace (l := rest)).length_le
          dsimp only at h
          split at h
          · cases h
            rintro b rest' ⟨⟩
            refine .inr ?_
            rw [List.length_tail, List.length_cons]
            omega
          · cases h
            rintro b rest' ⟨⟩
      split at h
      · exact hrest [] t rfl h
      split at h
      next hclose =>
        cases h
        rintro b rest ⟨⟩
        exact .inl hclose
      split at h
      · split at h
        · cases h
          rintro b rest ⟨⟩
        next rest hr =>
          obtain ⟨w, hw⟩ := skipComment_some ht.2 hr
          exact hrest w rest hw h
      · cases h
        rintro b rest ⟨⟩

end Keys

section Values

variable (d : Doubles δ) (encoder : Bool)

/-- `parse_value` in `n` turns on any text that they are enough for. -/
def ValueRuns (n : Nat) : Prop :=
  ∀ {t pre : List UInt8} {key : Option Nat} {key' : Option (List UInt8)} (T : List UInt8) (e : Bool),
    0 ∉ t → 2 * t.length + 1 ≤ n → HeldKey pre key key' →
      ∃ x r, parseValue d encoder n key ⟨pre ++ (t ++ 0 :: T), e⟩ pre.length = some x ∧
        Reader.value d encoder n key' t e = some r ∧ Follows HeldOption pre t T x r ∧
          Proceeds ']' t r.1

def MembersRuns (n : Nat) : Prop :=
  ∀ {t : List UInt8} (pre T : List UInt8) (e : Bool), 0 ∉ t → 2 * t.length + 2 ≤ n →
    ∃ x r, parseMembers d encoder n ⟨pre ++ (t ++ 0 :: T), e⟩ pre.length = some x ∧
      Reader.members d encoder n t e = some r ∧ Follows HeldNodes pre t T x r

def ItemsRuns (n : Nat) : Prop :=
  ∀ {t : List UInt8} (pre T : List UInt8) (e : Bool), 0 ∉ t → 2 * t.length + 2 ≤ n →
    ∃ x r, parseItems d encoder n ⟨pre ++ (t ++ 0 :: T), e⟩ pre.length = some x ∧
      Reader.items d encoder n t e = some r ∧ Follows HeldNodes pre t T x r

variable {d encoder} {n : Nat}

/-- The byte at which the text goes on. -/
theorem getElem?_rest (pre rest T : List UInt8) :
    (pre ++ (rest ++ 0 :: T))[pre.length]? = some (rest.headD 0) := by
  have hhead := getElem?_string (t := rest) pre T (Nat.zero_le _)
  rwa [Nat.add_zero, List.drop_zero] at hhead

theorem ItemsRuns.step (hv : ValueRuns d encoder n) (hi : ItemsRuns d encoder n) :
    ItemsRuns d encoder (n + 1) := by
  intro t pre T e ht hn
  obtain ⟨⟨xo, buf, e'⟩, ⟨ro, e''⟩, hx, hr, ⟨he, ho⟩, hproceeds⟩ :=
    @hv t pre none none T e ht (by omega) trivial
  dsimp only at he ho hproceeds
  subst he
  rw [parseItems, hx, Reader.items, hr]
  simp only [Option.bind_eq_bind, Option.bind_some]
  cases ro with
  | none =>
    obtain ⟨mess, hlen, hxo⟩ := ho.of_none
    obtain ⟨rfl, rfl⟩ := Prod.mk.inj hxo
    exact ⟨_, _, rfl, rfl, rfl, .error hlen⟩
  | some r =>
    obtain ⟨js', rest⟩ := r
    obtain ⟨w, seg, js, rfl, hlen, hjs, hxo⟩ := ho.of_some
    obtain ⟨rfl, rfl⟩ := Prod.mk.inj hxo
    dsimp only
    rw [getElem?_rest, Option.bind_some]
    by_cases hclose : rest.headD 0 = ']'.toUInt8
    · rw [if_pos hclose, if_pos hclose]
      exact ⟨_, _, rfl, rfl, rfl, .close (by decide) hclose hlen fun more => hjs.append more⟩
    · rw [if_neg hclose, if_neg hclose]
      have hlt := (hproceeds _ _ rfl).resolve_left hclose
      obtain ⟨x, r, hx', hr', hf⟩ := hi (pre ++ seg) T e'
        (fun h => ht (List.mem_append_right w h)) (by omega : 2 * rest.length + 2 ≤ n)
      have hcons := (hf.map (js.toList ++ ·) (js'.toList ++ ·) fun more _ _ h =>
        HeldOption.cons (hjs.append more) h).shift hlen
      rw [hx', hr']
      refine ⟨_, _, ?_, rfl, hcons⟩
      obtain ⟨_ | ⟨child, p⟩, m⟩ := x <;> rfl

theorem MembersRuns.step (hv : ValueRuns d encoder n) (hm : MembersRuns d encoder n) :
    MembersRuns d encoder (n + 1) := by
  intro t pre T e ht hn
  obtain ⟨⟨ko, buf⟩, kr, hk, hkr, hko⟩ :=
    @parseKey_outcome encoder n t ht (by omega) pre T
  rw [parseMembers, hk, Reader.members, hkr]
  simp only [Option.bind_eq_bind, Option.bind_some]
  cases kr with
  | none =>
    obtain ⟨mess, hlen, hxo⟩ := hko.of_none
    obtain ⟨rfl, rfl⟩ := Prod.mk.inj hxo
    exact ⟨_, _, rfl, rfl, rfl, .error hlen⟩
  | some r =>
    obtain ⟨key', rest⟩ := r
    obtain ⟨w, seg, key, rfl, hlen, hkey, hxo⟩ := hko.of_some
    obtain ⟨rfl, rfl⟩ := Prod.mk.inj hxo
    have hrest : 0 ∉ rest := fun h => ht (List.mem_append_right w h)
    have hlong := @List.length_append _ w rest
    dsimp only
    rw [getElem?_rest, Option.bind_some]
    by_cases hclose : rest.headD 0 = '}'.toUInt8
    · rw [if_pos hclose, if_pos hclose]
      exact ⟨_, _, rfl, rfl, rfl, .close (by decide) hclose hlen fun _ => .nil⟩
    rw [if_neg hclose, if_neg hclose]
    have hlt := (key_proceeds ht hkr _ _ rfl).resolve_left hclose
    obtain ⟨⟨xo, buf, e'⟩, ⟨ro, e''⟩, hx, hr, ⟨he, ho⟩, hproceeds⟩ :=
      @hv rest (pre ++ seg) key key' T e hrest (by omega) hkey
    dsimp only at he ho hproceeds
    subst he
    rw [hx, hr]
    simp only [Option.bind_some]
    cases ro with
    | none =>
      obtain ⟨mess, hlen', hxo⟩ := ho.of_none
      obtain ⟨rfl, rfl⟩ := Prod.mk.inj hxo
      exact ⟨_, _, rfl, rfl, rfl, (Outcome.error hlen').shift hlen⟩
    | some r =>
      obtain ⟨js', rest'⟩ := r
      have hle := ho.length_le
      obtain ⟨w', seg', js, rfl, hlen', hjs, hxo⟩ := ho.of_some
      obtain ⟨rfl, rfl⟩ := Prod.mk.inj hxo
      obtain ⟨x, r, hx', hr', hf⟩ := hm (pre ++ seg ++ seg') T e'
        (fun h => hrest (List.mem_append_right w' h)) (by omega : 2 * rest'.length + 2 ≤ n)
      have hcons := ((hf.map (js.toList ++ ·) (js'.toList ++ ·) fun more _ _ h =>
        HeldOption.cons (hjs.append more) h).shift hlen').shift hlen
      dsimp only
      rw [hx', hr']
      refine ⟨_, _, ?_, rfl, hcons⟩
      obtain ⟨_ | ⟨child, p⟩, m⟩ := x <;> rfl

theorem ValueRuns.step (hv : ValueRuns d encoder n) (hm : MembersRuns d encoder n)
    (hi : ItemsRuns d encoder n) : ValueRuns d encoder (n + 1) := by
  intro t pre key key' T e ht hn hkey
  cases t with
  | nil =>
    rw [parseValue, getElem?_rest, Reader.value]
    refine ⟨_, _, rfl, rfl, ⟨rfl, .error (t := []) rfl⟩, ?_⟩
    rintro b rest ⟨⟩
  | cons c t =>
    rw [List.mem_cons, not_or] at ht
    rw [List.length_cons] at hn
    have hbuf : pre ++ (c :: t ++ 0 :: T) = (pre ++ [c]) ++ (t ++ 0 :: T) := by simp
    have hp : (pre ++ [c]).length = pre.length + 1 := by simp
    -- the value goes on behind `w`
    have hgo : ∀ w rest, t = w ++ rest → ∃ x r,
        parseValue d encoder n key ⟨pre ++ (c :: t ++ 0 :: T), e⟩ (pre.length + 1 + w.length) = some x ∧
          Reader.value d encoder n key' rest e = some r ∧ Follows HeldOption pre (c :: t) T x r ∧
            Proceeds ']' (c :: t) r.1 := by
      rintro w rest rfl
      obtain ⟨x, r, hx, hr, hf, -⟩ := @hv rest (pre ++ c :: w) key key' T e
        (fun h => ht.2 (List.mem_append_right w h))
        (by simp only [List.length_append] at hn; omega) (hkey.append _)
      have hlen : (pre ++ c :: w).length = pre.length + 1 + w.length := by
        rw [List.length_append, List.length_cons]
        omega
      have hsplit : pre ++ c :: w ++ (rest ++ 0 :: T) = pre ++ (c :: (w ++ rest) ++ 0 :: T) := by simp
      rw [hlen, hsplit] at hx
      exact ⟨x, r, hx, hr, hf.shift (w := c :: w) rfl, hf.2.proceeds _ c w⟩
    rw [parseValue, getElem?_rest, List.headD_cons, Option.bind_eq_bind, Option.bind_some,
      if_neg (Ne.symm ht.1), Reader.value]
    by_cases hspace : c = ' '.toUInt8 ∨ c = '\t'.toUInt8 ∨ c = '\n'.toUInt8 ∨ c = '\r'.toUInt8 ∨
        c = ','.toUInt8
    · rw [if_pos hspace, if_pos hspace]
      exact hgo [] t rfl
    rw [if_neg hspace, if_neg hspace]
    by_cases hopen : c = '{'.toUInt8
    · obtain ⟨x, r, hx, hr, hf⟩ := hm (pre ++ [c]) T e ht.2 (by omega)
      have hobject := hf.map (fun child => some (.mk key .object child))
        (fun child => some (.mk key' .object child)) fun more _ _ h =>
          HeldOption.some (.mk ((hkey.append [c]).append more) .object h)
      rw [hp, ← hbuf] at hx
      rw [if_pos hopen, if_pos hopen, hx, hr]
      refine ⟨_, _, ?_, rfl, hobject.shift (w := [c]) rfl, hobject.2.proceeds _ c []⟩
      obtain ⟨_ | ⟨child, p⟩, m⟩ := x <;> rfl
    rw [if_neg hopen, if_neg hopen]
    by_cases hopen' : c = '['.toUInt8
    · obtain ⟨x, r, hx, hr, hf⟩ := hi (pre ++ [c]) T e ht.2 (by omega)
      have harray := hf.map (fun child => some (.mk key .array child))
        (fun child => some (.mk key' .array child)) fun more _ _ h =>
          HeldOption.some (.mk ((hkey.append [c]).append more) .array h)
      rw [hp, ← hbuf] at hx
      rw [if_pos hopen', if_pos hopen', hx, hr]
      refine ⟨_, _, ?_, rfl, harray.shift (w := [c]) rfl, harray.2.proceeds _ c []⟩
      obtain ⟨_ | ⟨child, p⟩, m⟩ := x <;> rfl
    rw [if_neg hopen', if_neg hopen']
    by_cases hclose : c = ']'.toUInt8
    · rw [if_pos hclose, if_pos hclose]
      refine ⟨_, _, rfl, rfl, ⟨rfl, .here .none⟩, ?_⟩
      rintro b rest ⟨⟩
      exact .inl hclose
    rw [if_neg hclose, if_neg hclose]
    by_cases hquote : c = '"'.toUInt8
    · obtain ⟨⟨xo, buf⟩, hx, ho⟩ := @unescape_outcome encoder n t ht.2 (by omega) pre T c
      rw [if_pos hquote, if_pos hquote]
      dsimp only
      rw [hx]
      cases hr : Reader.unescape encoder t with
      | none =>
        rw [hr] at ho
        cases ho with
        | error hlen =>
          refine ⟨_, _, rfl, rfl, ⟨rfl, .error hlen⟩, ?_⟩
          rintro b rest ⟨⟩
      | some sr =>
        obtain ⟨s, rest⟩ := sr
        rw [hr] at ho
        obtain ⟨w, seg, i, hw, hlen, ⟨rfl, hheld⟩, hxo⟩ := ho.of_some
        obtain ⟨rfl, rfl⟩ := Prod.mk.inj hxo
        have hlt := unescape_le ht.2 hr
        have hnode := @HeldOption.some δ _ _ _ (.mk (hkey.append seg) (.string hheld) .nil)
        refine ⟨_, _, rfl, rfl, ⟨rfl, .ok hw hlen hnode⟩, ?_⟩
        rintro b rest' ⟨⟩
        exact .inr (Nat.lt_succ_of_le hlt)
    rw [if_neg hquote, if_neg hquote]
    by_cases hnumber : startsNumber c = true
    · have hz : 0 ∉ c :: t := by simp [ht]
      obtain ⟨x, hx, hf⟩ := parseNumber_follows d hz pre T e
      have hnode := hf.map (fun v => some (.mk key v [])) (fun v => some (.mk key' v []))
        fun more _ _ h => HeldOption.some (.mk (hkey.append more) h .nil)
      rw [if_pos hnumber, if_pos hnumber, hx]
      have hlt : Proceeds ']' (c :: t) (Reader.number d (c :: t) e).1 := fun v rest hr =>
        .inr (number_lt d hr (List.cons_ne_nil c t))
      refine ⟨_, _, ?_, rfl, hnode, hlt.map fun v => some (Node.mk key' v [])⟩
      obtain ⟨_ | ⟨v, p⟩, m⟩ := x <;> rfl
    rw [if_neg hnumber, if_neg hnumber]
    by_cases htrue : c = 't'.toUInt8
    · obtain ⟨x, hx, hf⟩ := @parseWord_follows δ "true" (by decide) (.bool 1) (.bool 1) key key' pre
        (fun _ => .bool _) hkey (c :: t) T e
      rw [if_pos htrue, if_pos htrue]
      exact ⟨x, _, hx, rfl, hf, word_proceeds (by decide)⟩
    rw [if_neg htrue, if_neg htrue]
    by_cases hfalse : c = 'f'.toUInt8
    · obtain ⟨x, hx, hf⟩ := @parseWord_follows δ "false" (by decide) (.bool 0) (.bool 0) key key' pre
        (fun _ => .bool _) hkey (c :: t) T e
      rw [if_pos hfalse, if_pos hfalse]
      exact ⟨x, _, hx, rfl, hf, word_proceeds (by decide)⟩
    rw [if_neg hfalse, if_neg hfalse]
    by_cases hnull : c = 'n'.toUInt8
    · obtain ⟨x, hx, hf⟩ := @parseWord_follows δ "null" (by decide) .null .null key key' pre
        (fun _ => .null) hkey (c :: t) T e
      rw [if_pos hnull, if_pos hnull]
      exact ⟨x, _, hx, rfl, hf, word_proceeds (by decide)⟩
    rw [if_neg hnull, if_neg hnull]
    by_cases hslash : c = '/'.toUInt8
    · have hskip := skipComment_skips c ht.2 (by omega : t.length < n) pre T
      rw [if_pos hslash, if_pos hslash]
      cases hr : Reader.skipComment t with
      | none =>
        rw [hr] at hskip
        rw [List.cons_append, hskip]
        refine ⟨_, _, rfl, rfl, ⟨rfl, .error (t := c :: t) rfl⟩, ?_⟩
        rintro b rest ⟨⟩
      | some rest =>
        rw [hr] at hskip
        obtain ⟨w, hw, hskip⟩ := hskip
        rw [List.cons_append, hskip]
        exact hgo w rest hw
    · rw [if_neg hslash, if_neg hslash]
      refine ⟨_, _, rfl, rfl, ⟨rfl, .error rfl⟩, ?_⟩
      rintro b rest ⟨⟩

theorem runs (n : Nat) :
    ValueRuns d encoder n ∧ MembersRuns d encoder n ∧ ItemsRuns d encoder n := by
  induction n with
  | zero =>
    refine ⟨?_, ?_, ?_⟩
    · intro t pre key key' T e ht hn
      omega
    · intro t pre T e ht hn
      omega
    · intro t pre T e ht hn
      omega
  | succ n ih =>
    obtain ⟨hv, hm, hi⟩ := ih
    exact ⟨hv.step hm hi, hm.step hv, hi.step hv⟩

end Values

section Texts

/-- What a reader of the string at a pointer gets of the bytes that it was read as. -/
def cString (s : List UInt8) : List UInt8 := s.takeWhile (· ≠ 0)

variable {τ τ' : Type}

def Value.map (f : τ → τ') : Value δ τ → Value δ τ'
  | .null => .null
  | .object => .object
  | .array => .array
  | .string s => .string (f s)
  | .integer i x => .integer i x
  | .double i x => .double i x
  | .bool i => .bool i

mutual

def Node.map (f : τ → τ') : Node δ τ → Node δ τ'
  | .mk key type child => .mk (key.map f) (type.map f) (mapChild f child)

def mapChild (f : τ → τ') : List (Node δ τ) → List (Node δ τ')
  | [] => []
  | js :: child => js.map f :: mapChild f child

end

theorem Held.textAt {buf s : List UInt8} {i : Nat} (h : Held buf i s) :
    CString.textAt buf i = cString s := by
  obtain ⟨a, b, rfl, rfl⟩ := h
  rw [CString.textAt, List.drop_left, cString]
  induction s with
  | nil => rfl
  | cons c s ih =>
    rw [List.cons_append]
    by_cases hc : c = 0
    · simp [hc]
    · rw [List.takeWhile_cons_of_pos (by simpa using hc), ih,
        List.takeWhile_cons_of_pos (by simpa using hc)]

theorem HeldNode.map_eq {buf : List UInt8} {js : Node δ Nat} {js' : Node δ (List UInt8)}
    (h : HeldNode buf js js') : js.map (textAt buf) = js'.map cString := by
  refine @HeldNode.rec δ buf (fun js js' _ => js.map (textAt buf) = js'.map cString)
    (fun child child' _ => mapChild (textAt buf) child = mapChild cString child') ?_ rfl ?_ js js' h
  · rintro key key' type type' child child' hkey htype - hchild
    have hkeys : key.map (textAt buf) = key'.map cString := by
      cases key <;> cases key'
      · rfl
      · cases hkey
      · cases hkey
      · exact congrArg some hkey.textAt
    have htypes : type.map (textAt buf) = type'.map cString := by
      cases htype with
      | string h => exact congrArg Value.string h.textAt
      | null => rfl
      | object => rfl
      | array => rfl
      | integer => rfl
      | double => rfl
      | bool => rfl
    rw [Node.map, Node.map, hkeys, htypes, hchild]
  · rintro js js' child child' - - h hchild
    rw [mapChild, mapChild, h, hchild]

end Texts

section Parse

variable (d : Doubles δ) (encoder : Bool) {t : List UInt8}

/-- The text is read to the end or to an error within the buffer. Nothing is changed outside of it, nor
its terminator, and the texts of the tree stand in the buffer as they were read. -/
theorem parse_reads (ht : 0 ∉ t) (pre T : List UInt8) (e : Bool) :
    ∃ js js' mess e', parse d encoder ⟨pre ++ (t ++ 0 :: T), e⟩ pre.length =
        some (js, ⟨pre ++ (mess ++ 0 :: T), e'⟩) ∧ mess.length = t.length ∧
      Reader.parse d encoder (2 * (pre ++ (t ++ 0 :: T)).length + 2) t e = some (js', e') ∧
        js.map (Node.map (textAt (pre ++ (mess ++ 0 :: T)))) = js'.map (Node.map cString) := by
  have hn : 2 * t.length + 1 ≤ 2 * (pre ++ (t ++ 0 :: T)).length + 2 := by
    simp only [List.length_append, List.length_cons]
    omega
  obtain ⟨⟨xo, buf, e'⟩, ⟨ro, e''⟩, hx, hr, ⟨he, ho⟩, -⟩ :=
    @(@runs δ d encoder _).1 t pre none none T e ht hn trivial
  dsimp only at he ho
  subst he
  rw [parse, hx, Reader.parse, hr]
  cases ro with
  | none =>
    obtain ⟨mess, hlen, hxo⟩ := ho.of_none
    obtain ⟨rfl, rfl⟩ := Prod.mk.inj hxo
    exact ⟨none, none, mess, e', rfl, hlen, rfl, rfl⟩
  | some r =>
    obtain ⟨js', rest⟩ := r
    obtain ⟨w, seg, js, rfl, hlen, hjs, hxo⟩ := ho.of_some
    obtain ⟨rfl, rfl⟩ := Prod.mk.inj hxo
    have hbuf : pre ++ seg ++ (rest ++ 0 :: T) = pre ++ ((seg ++ rest) ++ 0 :: T) := by simp
    rw [hbuf]
    refine ⟨js, js', seg ++ rest, e', rfl, by simp [hlen], rfl, ?_⟩
    rw [← hbuf]
    cases js <;> cases js' <;> cases hjs
    · rfl
    · exact congrArg some ((‹HeldNode _ _ _›.append _).map_eq)

end Parse

end EdgeNode.Nxjson
