import EdgeNode.Nxjson.Reader

/-! The text is changed behind the position at which it is read: what is read in place is what would be
read of a text that nothing is written into, and no byte is read or written behind its terminator. -/

namespace EdgeNode.Nxjson

open CString

section Access

variable {pre gap t rest bs : List UInt8} {b c : UInt8}

theorem getElem?_text (pre t : List UInt8) (k : Nat) : (pre ++ t)[pre.length + k]? = t[k]? := by
  rw [List.getElem?_append_right (by omega), Nat.add_sub_cancel_left]

theorem getElem?_first (pre t : List UInt8) (c : UInt8) : (pre ++ c :: t)[pre.length]? = some c :=
  getElem?_text pre (c :: t) 0

/-- A byte of a string, up to its terminator. -/
theorem getElem?_string (pre T : List UInt8) {k : Nat} (hk : k ≤ t.length) :
    (pre ++ (t ++ 0 :: T))[pre.length + k]? = some ((t.drop k).headD 0) := by
  rw [getElem?_text]
  induction t generalizing k with
  | nil =>
    obtain rfl := Nat.le_zero.mp hk
    rfl
  | cons c t ih =>
    cases k with
    | zero => rfl
    | succ k =>
      rw [List.cons_append, List.getElem?_cons_succ, List.drop_succ_cons]
      exact ih (Nat.le_of_succ_le_succ hk)

theorem pokeBytes_gap (h : bs.length ≤ gap.length) :
    pokeBytes (pre ++ (gap ++ rest)) pre.length bs =
      some ((pre ++ bs) ++ (gap.drop bs.length ++ rest)) := by
  have hle : pre.length + bs.length ≤ (pre ++ (gap ++ rest)).length := by
    simp only [List.length_append]
    omega
  rw [pokeBytes_eq _ _ _ (by simp), if_pos hle, List.take_left, List.drop_append,
    List.drop_eq_nil_of_le (by omega), Nat.add_sub_cancel_left, List.nil_append,
    List.drop_append_of_le_length h, List.append_assoc]

theorem poke_gap (h : gap ≠ []) :
    poke (pre ++ (gap ++ rest)) pre.length b = some ((pre ++ [b]) ++ (gap.tail ++ rest)) := by
  obtain ⟨g, gap, rfl⟩ := List.exists_cons_of_ne_nil h
  rw [List.cons_append, poke_append]
  simp

end Access

section Strings

variable {t : List UInt8}

theorem hexVal_zero : hexVal 0 = none := rfl

/-- The digits are read up to the terminator at most. -/
theorem hex4_eq (pre t T : List UInt8) :
    hex4 (pre ++ (t ++ 0 :: T)) pre.length = some ((Reader.hex4 t).map Prod.fst) := by
  rcases t with _ | ⟨a, _ | ⟨b, _ | ⟨c, _ | ⟨e, t⟩⟩⟩⟩
  · simp [hex4, hexVal_zero, Reader.hex4]
  · cases ha : hexVal a <;> simp [hex4, ha, hexVal_zero, Reader.hex4]
  · cases ha : hexVal a <;> cases hb : hexVal b <;>
      simp [hex4, ha, hb, hexVal_zero, Reader.hex4]
  · cases ha : hexVal a <;> cases hb : hexVal b <;> cases hc : hexVal c <;>
      simp [hex4, ha, hb, hc, hexVal_zero, Reader.hex4]
  · cases ha : hexVal a <;> cases hb : hexVal b <;> cases hc : hexVal c <;> cases he : hexVal e <;>
      simp [hex4, ha, hb, hc, he, Reader.hex4]

theorem hex4_some {rest : List UInt8} {c : Nat} (h : Reader.hex4 t = some (c, rest)) :
    ∃ w, t = w ++ rest ∧ w.length = 4 := by
  unfold Reader.hex4 at h
  split at h
  next a b c e t =>
    simp only [Option.bind_eq_bind, Option.bind_eq_some_iff, Option.some.injEq, Prod.mk.injEq] at h
    obtain ⟨_, _, _, _, _, _, _, _, _, rfl⟩ := h
    exact ⟨[a, b, c, e], rfl, rfl⟩
  next => cases h

theorem codepoint_eq (pre t T : List UInt8) (u : UInt8) :
    codepoint (pre ++ (u :: t ++ 0 :: T)) pre.length = some ((Reader.codepoint t).map fun x =>
      (x.1, pre.length + (t.length - x.2.length) - 4)) := by
  have hread := hex4_eq (pre ++ [u]) t T
  simp only [List.length_append, List.length_singleton, List.append_assoc,
    List.singleton_append] at hread
  rw [codepoint, List.cons_append, hread, Reader.codepoint]
  cases h4 : Reader.hex4 t with
  | none => rfl
  | some x =>
    obtain ⟨c, rest⟩ := x
    obtain ⟨w, rfl, hw⟩ := hex4_some h4
    simp only [Option.map_some, Option.bind_eq_bind, Option.bind_some]
    by_cases hc : isHigh c
    · have hsplit : ∀ x y, rest = x ++ y → pre ++ u :: (w ++ rest ++ 0 :: T) =
          (pre ++ u :: (w ++ x)) ++ (y ++ 0 :: T) := by
        rintro x y rfl
        simp
      have h5 := getElem?_string (pre ++ u :: (w ++ [])) T (Nat.zero_le rest.length)
      rw [← hsplit [] rest rfl, List.append_nil, List.drop_zero] at h5
      have hl5 : (pre ++ u :: w).length + 0 = pre.length + 5 := by simp [hw]
      rw [if_pos hc, if_pos hc, ← hl5, h5, Option.bind_some]
      by_cases hb : rest.headD 0 = '\\'.toUInt8
      · cases rest with
        | nil => exact absurd hb (by decide)
        | cons b rest =>
          have h6 := getElem?_string (pre ++ u :: (w ++ [b])) T (Nat.zero_le rest.length)
          rw [← hsplit [b] rest rfl, List.drop_zero] at h6
          have hl6 : (pre ++ u :: (w ++ [b])).length + 0 = pre.length + 6 := by simp [hw]
          rw [if_neg (by simpa using hb), ← hl6, h6, Option.bind_some]
          by_cases hu : rest.headD 0 = 'u'.toUInt8
          · cases rest with
            | nil => exact absurd hu (by decide)
            | cons u' rest =>
              have h7 := hex4_eq (pre ++ u :: (w ++ [b, u'])) rest T
              rw [← hsplit [b, u'] rest rfl] at h7
              have hl7 : (pre ++ u :: (w ++ [b, u'])).length = pre.length + 7 := by simp [hw]
              rw [if_neg (by simpa using hu), ← hl7, h7, Option.bind_some, if_pos ⟨hb, hu⟩,
                List.tail_cons, List.tail_cons]
              cases h4' : Reader.hex4 rest with
              | none => rfl
              | some y =>
                obtain ⟨c2, rest'⟩ := y
                obtain ⟨w', rfl, hw'⟩ := hex4_some h4'
                by_cases hl : isLow c2
                · simp [hl, hw, hw']
                  omega
                · simp [hl]
          · rw [if_pos hu, if_neg (fun h => hu h.2)]
            rfl
      · rw [if_pos hb, if_neg (fun h => hb h.1)]
        rfl
    · rw [if_neg hc, if_neg hc]
      simp [hw]

theorem codepoint_some {rest : List UInt8} {c : Nat} (h : Reader.codepoint t = some (c, rest)) :
    ∃ w, t = w ++ rest ∧ 4 ≤ w.length := by
  rw [Reader.codepoint, Option.bind_eq_bind, Option.bind_eq_some_iff] at h
  obtain ⟨⟨c1, t1⟩, h1, h⟩ := h
  obtain ⟨w, rfl, hw⟩ := hex4_some h1
  dsimp only at h
  split at h
  · split at h
    next hpair =>
      obtain ⟨⟨c2, t2⟩, h2, h⟩ := Option.bind_eq_some_iff.mp h
      obtain ⟨w', hw', -⟩ := hex4_some h2
      have ht1 : t1 = t1.take 2 ++ t1.tail.tail := by
        rcases t1 with _ | ⟨a, _ | ⟨b, t1⟩⟩ <;> rfl
      split at h
      · simp only [Option.some.injEq, Prod.mk.injEq] at h
        obtain ⟨-, rfl⟩ := h
        refine ⟨w ++ (t1.take 2 ++ w'), ?_, by simp [hw]⟩
        rw [List.append_assoc, List.append_assoc, ← hw', ← ht1]
      · cases h
    · cases h
  · simp only [Option.some.injEq, Prod.mk.injEq] at h
    obtain ⟨-, rfl⟩ := h
    exact ⟨w, rfl, by omega⟩

theorem length_unicodeToUtf8 {c : Nat} {bs : List UInt8} (h : unicodeToUtf8 c = some bs) :
    bs.length ≤ 4 := by
  unfold unicodeToUtf8 at h
  split_ifs at h <;> cases h <;> simp

/-- The buffer behind a run on the string `t`, with `k` free bytes before it: what was read stands from
`pre` on. -/
def Leaves (pre : List UInt8) (k : Nat) (t T : List UInt8) (x : Option (Option Nat × List UInt8)) :
    Option (List UInt8 × List UInt8) → Prop
  | none => ∃ mess, mess.length = k + t.length ∧ x = some (none, pre ++ (mess ++ 0 :: T))
  | some (s, rest) => ∃ w gap, t = w ++ rest ∧ (s ++ 0 :: gap).length = k + w.length ∧
      x = some (some (pre ++ (s ++ 0 :: gap)).length, (pre ++ (s ++ 0 :: gap)) ++ (rest ++ 0 :: T))

theorem Leaves.emit {pre bs w t T : List UInt8} {k k' : Nat} {x : Option (Option Nat × List UInt8)}
    {r : Option (List UInt8 × List UInt8)} (h : Leaves (pre ++ bs) k' t T x r)
    (hk : k + w.length = bs.length + k') : Leaves pre k (w ++ t) T x (Reader.emit bs r) := by
  cases r with
  | none =>
    obtain ⟨mess, hm, rfl⟩ := h
    refine ⟨bs ++ mess, ?_, by simp⟩
    simp only [List.length_append]
    omega
  | some r =>
    obtain ⟨s, rest⟩ := r
    obtain ⟨w', gap, rfl, hg, rfl⟩ := h
    refine ⟨w ++ w', gap, by simp, ?_, by simp⟩
    simp only [List.length_append] at hg ⊢
    omega

section Turns

variable {encoder : Bool} {n p d : Nat} {buf : List UInt8} {b c e : UInt8}

theorem unescape_escaped (hp : buf[p]? = some '\\'.toUInt8) (he : buf[p + 1]? = some e)
    (hb : escaped e = some b) : unescape encoder (n + 1) buf p d =
      (poke buf d b).bind fun buf => unescape encoder n buf (p + 2) (d + 1) := by
  rw [unescape, hp, Option.bind_eq_bind, Option.bind_some, if_neg (by decide), if_neg (by decide),
    if_pos rfl, he, Option.bind_eq_bind, Option.bind_some]
  simp only [hb]

theorem unescape_codepoint (hp : buf[p]? = some '\\'.toUInt8) (he : buf[p + 1]? = some 'u'.toUInt8) :
    unescape true (n + 1) buf p d = (codepoint buf (p + 1)).bind fun r =>
      match r with
      | none => some (none, buf)
      | some (c, p) =>
        match unicodeToUtf8 c with
        | none => some (none, buf)
        | some bs =>
          (pokeBytes buf d bs).bind fun buf => unescape true n buf (p + 5) (d + bs.length) := by
  rw [unescape, hp, Option.bind_eq_bind, Option.bind_some, if_neg (by decide), if_neg (by decide),
    if_pos rfl, he, Option.bind_eq_bind, Option.bind_some]
  have hu : escaped 'u'.toUInt8 = none := by decide
  simp only [hu, and_self, if_true]
  rfl

theorem unescape_copy (hp : buf[p]? = some c) (hc : c ≠ 0) (hquote : c ≠ '"'.toUInt8)
    (hslash : c = '\\'.toUInt8 → ∃ e, buf[p + 1]? = some e ∧ escaped e = none ∧
      ¬ (e = 'u'.toUInt8 ∧ encoder = true)) :
    unescape encoder (n + 1) buf p d =
      (poke buf d c).bind fun buf => unescape encoder n buf (p + 1) (d + 1) := by
  rw [unescape, hp, Option.bind_eq_bind, Option.bind_some, if_neg hc, if_neg hquote]
  by_cases hs : c = '\\'.toUInt8
  · obtain ⟨e, he, hb, hu⟩ := hslash hs
    rw [if_pos hs, he, Option.bind_eq_bind, Option.bind_some]
    simp only [hb, if_neg hu]
  · rw [if_neg hs]
    rfl

end Turns

/-- The loop of `unescape_string` on a string, when `gap` is what was read and not yet written over. -/
def Unescapes (encoder : Bool) (n : Nat) (t : List UInt8) : Prop :=
  ∀ pre gap T, Leaves pre gap.length t T
    (unescape encoder n (pre ++ (gap ++ (t ++ 0 :: T))) (pre.length + gap.length) pre.length)
    (Reader.unescape encoder t)

section Steps

variable {encoder : Bool} {n : Nat} {w rest : List UInt8} {c e : UInt8}

theorem getElem?_head (pre gap r : List UInt8) (c : UInt8) :
    (pre ++ (gap ++ (c :: r)))[pre.length + gap.length]? = some c := by
  rw [← List.append_assoc, ← List.length_append]
  exact getElem?_text (pre ++ gap) (c :: r) 0

theorem getElem?_next (pre gap t T : List UInt8) (c : UInt8) :
    (pre ++ (gap ++ (c :: t ++ 0 :: T)))[pre.length + gap.length + 1]? = some (t.headD 0) := by
  rw [← List.append_assoc, ← List.length_append, List.cons_append, getElem?_text]
  cases t <;> rfl

theorem poke_read (pre gap T : List UInt8) (hw : w ≠ []) (b : UInt8) :
    poke (pre ++ (gap ++ (w ++ rest ++ 0 :: T))) pre.length b =
      some ((pre ++ [b]) ++ ((gap ++ w).drop 1 ++ (rest ++ 0 :: T))) := by
  rw [List.append_assoc, ← List.append_assoc gap, poke_gap (by simp [hw]), List.drop_one]

/-- The loop goes on behind `w`, having written `bs`. -/
theorem Unescapes.step (w bs : List UInt8) (h : Unescapes encoder n rest) (hbs : bs.length ≤ w.length)
    (hread : Reader.unescape encoder (w ++ rest) = Reader.emit bs (Reader.unescape encoder rest))
    (hrun : ∀ pre gap T,
      unescape encoder (n + 1) (pre ++ (gap ++ (w ++ rest ++ 0 :: T))) (pre.length + gap.length)
          pre.length =
        unescape encoder n ((pre ++ bs) ++ ((gap ++ w).drop bs.length ++ (rest ++ 0 :: T)))
          (pre.length + gap.length + w.length) (pre.length + bs.length)) :
    Unescapes encoder (n + 1) (w ++ rest) := by
  intro pre gap T
  have hrest := h (pre ++ bs) ((gap ++ w).drop bs.length) T
  have hd : (pre ++ bs).length = pre.length + bs.length := List.length_append
  have hp : (pre ++ bs).length + ((gap ++ w).drop bs.length).length =
      pre.length + gap.length + w.length := by
    rw [hd, List.length_drop, List.length_append]
    omega
  rw [hp, hd] at hrest
  rw [hrun, hread]
  refine hrest.emit ?_
  rw [List.length_drop, List.length_append]
  omega

theorem unescapes_quote (n : Nat) (t : List UInt8) :
    Unescapes encoder (n + 1) ('"'.toUInt8 :: t) := by
  intro pre gap T
  have hhead := getElem?_head pre gap (t ++ 0 :: T) '"'.toUInt8
  have hpoke := @poke_read ['"'.toUInt8] t pre gap T (by simp) 0
  rw [List.singleton_append] at hpoke
  rw [unescape, List.cons_append, hhead, Reader.unescape, if_pos rfl, Option.bind_eq_bind,
    Option.bind_some, if_neg (by decide), if_pos rfl, ← List.cons_append, hpoke]
  refine ⟨['"'.toUInt8], (gap ++ ['"'.toUInt8]).drop 1, rfl, by simp, ?_⟩
  simp
  omega

theorem Unescapes.copy {t : List UInt8} (h : Unescapes encoder n t) (hc : c ≠ 0)
    (hquote : c ≠ '"'.toUInt8) (hslash : c = '\\'.toUInt8 → escaped (t.headD 0) = none ∧
      ¬ (t.headD 0 = 'u'.toUInt8 ∧ encoder = true)) : Unescapes encoder (n + 1) (c :: t) := by
  refine h.step [c] [c] (Nat.le_refl _) ?_ fun pre gap T => ?_
  · rw [List.singleton_append, Reader.unescape, if_neg hquote]
    by_cases hs : c = '\\'.toUInt8
    · rw [if_pos hs, (hslash hs).1]
      exact if_neg (hslash hs).2
    · rw [if_neg hs]
  · have hnext := getElem?_next pre gap t T c
    exact (unescape_copy (getElem?_head pre gap _ c) hc hquote fun hs => ⟨_, hnext, hslash hs⟩).trans
      (congrArg (Option.bind · _) (poke_read pre gap T (List.cons_ne_nil c []) c))

theorem Unescapes.escape {t : List UInt8} {b : UInt8} (h : Unescapes encoder n t)
    (hb : escaped e = some b) : Unescapes encoder (n + 1) ('\\'.toUInt8 :: e :: t) := by
  refine h.step ['\\'.toUInt8, e] [b] (by simp) ?_ fun pre gap T => ?_
  · rw [List.cons_append, List.singleton_append, Reader.unescape, if_neg (by decide), if_pos rfl,
      List.headD_cons, hb, List.tail_cons]
  · have hnext := getElem?_next pre gap (e :: t) T '\\'.toUInt8
    exact (unescape_escaped (getElem?_head pre gap _ _) hnext hb).trans
      (congrArg (Option.bind · _) (poke_read pre gap T (List.cons_ne_nil _ [e]) b))

/-- Nothing is written before the code point of an escape is known. -/
theorem unescapes_codepoint {t : List UInt8}
    (h : ∀ c rest, Reader.codepoint t = some (c, rest) → Unescapes true n rest) :
    Unescapes true (n + 1) ('\\'.toUInt8 :: 'u'.toUInt8 :: t) := by
  have hread := Reader.unescape_codepoint t
  have hrun : ∀ pre gap T, unescape true (n + 1)
      (pre ++ (gap ++ ('\\'.toUInt8 :: 'u'.toUInt8 :: t ++ 0 :: T))) (pre.length + gap.length)
      pre.length = _ := fun pre gap T =>
    unescape_codepoint (getElem?_head pre gap _ _) (getElem?_next pre gap ('u'.toUInt8 :: t) T _)
  have hcode : ∀ pre gap T,
      codepoint (pre ++ (gap ++ ('\\'.toUInt8 :: 'u'.toUInt8 :: t ++ 0 :: T)))
        (pre.length + gap.length + 1) = some ((Reader.codepoint t).map fun x =>
          (x.1, pre.length + gap.length + 1 + (t.length - x.2.length) - 4)) := by
    intro pre gap T
    have hc := codepoint_eq (pre ++ (gap ++ ['\\'.toUInt8])) t T 'u'.toUInt8
    simpa [Nat.add_assoc] using hc
  have hstop : Reader.unescape true ('\\'.toUInt8 :: 'u'.toUInt8 :: t) = none →
      (∀ pre gap T, unescape true (n + 1)
        (pre ++ (gap ++ ('\\'.toUInt8 :: 'u'.toUInt8 :: t ++ 0 :: T))) (pre.length + gap.length)
          pre.length = some (none, pre ++ (gap ++ ('\\'.toUInt8 :: 'u'.toUInt8 :: t ++ 0 :: T)))) →
      Unescapes true (n + 1) ('\\'.toUInt8 :: 'u'.toUInt8 :: t) := by
    intro hnone hend pre gap T
    rw [hnone, hend]
    exact ⟨gap ++ ('\\'.toUInt8 :: 'u'.toUInt8 :: t), by simp, by simp⟩
  cases hc : Reader.codepoint t with
  | none =>
    rw [hc] at hread hcode
    refine hstop hread fun pre gap T => ?_
    rw [hrun, hcode]
    rfl
  | some x =>
    obtain ⟨c, rest⟩ := x
    obtain ⟨w, rfl, hw⟩ := codepoint_some hc
    rw [hc] at hread hcode
    simp only [Option.bind_some, Option.map_some] at hread hcode
    cases hbs : unicodeToUtf8 c with
    | none =>
      rw [hbs] at hread
      refine hstop hread fun pre gap T => ?_
      rw [hrun, hcode, Option.bind_some]
      simp only [hbs]
    | some bs =>
      have hle := length_unicodeToUtf8 hbs
      rw [hbs] at hread
      refine (h c rest hc).step ('\\'.toUInt8 :: 'u'.toUInt8 :: w) bs ?_ hread fun pre gap T => ?_
      · rw [List.length_cons, List.length_cons]
        omega
      · have hgap : pre ++ (gap ++ ('\\'.toUInt8 :: 'u'.toUInt8 :: (w ++ rest) ++ 0 :: T)) =
            pre ++ ((gap ++ '\\'.toUInt8 :: 'u'.toUInt8 :: w) ++ (rest ++ 0 :: T)) := by simp
        have hend : pre.length + gap.length + 1 + ((w ++ rest).length - rest.length) - 4 + 5 =
            pre.length + gap.length + ('\\'.toUInt8 :: 'u'.toUInt8 :: w).length := by
          simp only [List.length_append, List.length_cons]
          omega
        have hfit : bs.length ≤ (gap ++ '\\'.toUInt8 :: 'u'.toUInt8 :: w).length := by
          simp only [List.length_append, List.length_cons]
          omega
        refine (hrun pre gap T).trans ?_
        rw [hcode, Option.bind_some]
        simp only [hbs]
        rw [hgap, pokeBytes_gap hfit, hend]
        rfl

end Steps

theorem unescapes (encoder : Bool) {n : Nat} {t : List UInt8} (ht : 0 ∉ t) (hn : t.length < n) :
    Unescapes encoder n t := by
  induction n generalizing t with
  | zero => omega
  | succ n ih =>
    cases t with
    | nil =>
      intro pre gap T
      rw [unescape, List.nil_append, getElem?_head, Reader.unescape]
      exact ⟨gap, rfl, rfl⟩
    | cons c t =>
      rw [List.mem_cons, not_or] at ht
      rw [List.length_cons] at hn
      have hrest : ∀ rest, (∃ w, t = w ++ rest) → Unescapes encoder n rest := by
        rintro rest ⟨w, rfl⟩
        refine ih (fun h => ht.2 (List.mem_append_right w h)) ?_
        rw [List.length_append] at hn
        omega
      have hcopy := (hrest t ⟨[], rfl⟩).copy (Ne.symm ht.1)
      by_cases hquote : c = '"'.toUInt8
      · rw [hquote]
        exact unescapes_quote n t
      by_cases hslash : c = '\\'.toUInt8
      · subst hslash
        cases t with
        | nil => exact hcopy hquote fun _ => ⟨rfl, fun h => absurd h.1 (by decide)⟩
        | cons e t =>
          cases hesc : escaped e with
          | some b => exact (hrest t ⟨[e], rfl⟩).escape hesc
          | none =>
            by_cases hu : e = 'u'.toUInt8 ∧ encoder = true
            · obtain ⟨rfl, rfl⟩ := hu
              refine unescapes_codepoint fun c rest hc => ?_
              obtain ⟨w, rfl, -⟩ := codepoint_some hc
              exact hrest rest ⟨'u'.toUInt8 :: w, rfl⟩
            · exact hcopy hquote fun _ => ⟨hesc, hu⟩
      · exact hcopy hquote fun h => absurd h hslash

end Strings

section Comments

theorem getElem?_last (b : UInt8) (piece : List UInt8) :
    (b :: piece)[piece.length]? = some (piece.getLastD b) := by
  induction piece generalizing b with
  | nil => rfl
  | cons c piece ih =>
    rw [List.length_cons, List.getElem?_cons_succ, ih, List.getLastD_cons]

theorem endOfComment_piece {piece rest : List UInt8} (h : '/'.toUInt8 ∉ piece) (b : UInt8) :
    Reader.endOfComment b (piece ++ '/'.toUInt8 :: rest) =
      if piece.getLastD b = '*'.toUInt8 then some rest
      else Reader.endOfComment '/'.toUInt8 rest := by
  induction piece generalizing b with
  | nil =>
    rw [List.nil_append, Reader.endOfComment, List.getLastD_nil]
    simp
  | cons c piece ih =>
    rw [List.mem_cons, not_or] at h
    rw [List.cons_append, Reader.endOfComment, if_neg (fun hc => h.1 hc.1.symm), ih h.2,
      List.getLastD_cons]

theorem endOfComment_none {t : List UInt8} (h : '/'.toUInt8 ∉ t) (b : UInt8) :
    Reader.endOfComment b t = none := by
  induction t generalizing b with
  | nil => rfl
  | cons c t ih =>
    rw [List.mem_cons, not_or] at h
    rw [Reader.endOfComment, if_neg (fun hc => h.1 hc.1.symm), ih h.2]

/-- A comment in the text `t` is skipped, which begins at `p`. -/
def Skips (p : Nat) (t : List UInt8) (x : Option (Option Nat)) : Option (List UInt8) → Prop
  | none => x = some none
  | some rest => ∃ w, t = w ++ rest ∧ x = some (some (p + w.length))

/-- The search from behind the byte `b` on. -/
theorem strchr_next {c : UInt8} {piece : List UInt8} (pre rest : List UInt8) (b : UInt8)
    (hc : c ∉ piece) (hz : 0 ∉ piece) : strchr (pre ++ b :: (piece ++ c :: rest)) (pre.length + 1) c =
      some (some (pre.length + 1 + piece.length)) := by
  have h : strchr ((pre ++ [b]) ++ (piece ++ c :: rest)) (pre ++ [b]).length c = _ :=
    strchr_found hc hz
  rwa [List.append_assoc, List.singleton_append, List.length_append, List.length_singleton] at h

theorem strchr_nowhere {c : UInt8} {t : List UInt8} (pre T : List UInt8) (b : UInt8) (hc : c ∉ t)
    (hz : 0 ∉ t) (hne : c ≠ 0) : strchr (pre ++ b :: (t ++ 0 :: T)) (pre.length + 1) c = some none := by
  have h : strchr ((pre ++ [b]) ++ (t ++ 0 :: T)) (pre ++ [b]).length c = _ :=
    strchr_missing hc hz hne
  rwa [List.append_assoc, List.singleton_append, List.length_append, List.length_singleton] at h

theorem endOfComment_skips {n : Nat} {t : List UInt8} (b : UInt8) (ht : 0 ∉ t) (hn : t.length < n)
    (pre T : List UInt8) : Skips (pre.length + 1) t
      (endOfComment n (pre ++ b :: (t ++ 0 :: T)) pre.length) (Reader.endOfComment b t) := by
  induction n generalizing b t pre with
  | zero => omega
  | succ n ih =>
    by_cases hs : '/'.toUInt8 ∈ t
    · obtain ⟨piece, rest, rfl, hpiece⟩ := List.eq_append_cons_of_mem hs
      have hz : 0 ∉ piece := fun h => ht (List.mem_append_left _ h)
      have hprev : (pre ++ b :: (piece ++ '/'.toUInt8 :: (rest ++ 0 :: T)))[pre.length + 1 +
          piece.length - 1]? = some (piece.getLastD b) := by
        have hidx : pre.length + 1 + piece.length - 1 = pre.length + piece.length := by omega
        rw [hidx, getElem?_text, ← List.cons_append, List.getElem?_append_left (by simp),
          getElem?_last]
      rw [endOfComment, List.append_assoc, List.cons_append, strchr_next pre _ b hpiece hz,
        endOfComment_piece hpiece]
      simp only [Option.bind_eq_bind, Option.bind_some, hprev]
      by_cases hstar : piece.getLastD b = '*'.toUInt8
      · rw [if_neg (not_not_intro hstar), if_pos hstar]
        exact ⟨piece ++ ['/'.toUInt8], by simp, by simp [Nat.add_assoc]⟩
      · have hrest := ih '/'.toUInt8 (t := rest) (fun h => ht (by simp [h]))
          (by simp only [List.length_append, List.length_cons] at hn; omega) (pre ++ b :: piece)
        have hp : (pre ++ b :: piece).length = pre.length + 1 + piece.length := by
          rw [List.length_append, List.length_cons]
          omega
        rw [List.append_assoc, List.cons_append, hp] at hrest
        rw [if_pos hstar, if_neg hstar]
        cases hr : Reader.endOfComment '/'.toUInt8 rest with
        | none =>
          rw [hr] at hrest
          exact hrest
        | some r =>
          rw [hr] at hrest
          obtain ⟨w, rfl, hw⟩ := hrest
          refine ⟨piece ++ '/'.toUInt8 :: w, by simp, hw.trans ?_⟩
          rw [List.length_append, List.length_cons]
          congr 2
          omega
    · rw [endOfComment, strchr_nowhere pre T b hs ht (by decide), endOfComment_none hs]
      rfl

theorem skipComment_skips {n : Nat} {t : List UInt8} (c : UInt8) (ht : 0 ∉ t) (hn : t.length < n)
    (pre T : List UInt8) : Skips (pre.length + 1) t
      (skipComment n (pre ++ c :: (t ++ 0 :: T)) pre.length) (Reader.skipComment t) := by
  have hnext : (pre ++ c :: (t ++ 0 :: T))[pre.length + 1]? = some (t.headD 0) :=
    getElem?_next pre [] t T c
  rw [skipComment, hnext, Option.bind_eq_bind, Option.bind_some]
  cases t with
  | nil => rfl
  | cons b t =>
    rw [List.mem_cons, not_or] at ht
    have hshift : pre ++ c :: (b :: t ++ 0 :: T) = (pre ++ [c]) ++ b :: (t ++ 0 :: T) := by simp
    have hp : (pre ++ [c]).length = pre.length + 1 := by simp
    rw [List.headD_cons, Reader.skipComment]
    by_cases hline : b = '/'.toUInt8
    · rw [if_pos hline, if_pos hline]
      by_cases hend : '\n'.toUInt8 ∈ t
      · obtain ⟨piece, rest, rfl, hpiece⟩ := List.eq_append_cons_of_mem hend
        have hz : 0 ∉ piece := fun h => ht.2 (List.mem_append_left _ h)
        have hdrop : (piece ++ '\n'.toUInt8 :: rest).dropWhile (· ≠ '\n'.toUInt8) =
            '\n'.toUInt8 :: rest := by
          rw [List.dropWhile_append_of_pos fun x hx => by simpa using ne_of_mem_of_not_mem hx hpiece]
          simp
        have hfound : strchr (pre ++ c :: (b :: (piece ++ '\n'.toUInt8 :: rest) ++ 0 :: T))
            (pre.length + 2) '\n'.toUInt8 = some (some (pre.length + 2 + piece.length)) := by
          have h := strchr_next (pre ++ [c]) (rest ++ 0 :: T) b hpiece hz
          rw [hp] at h
          rw [hshift, List.append_assoc piece]
          exact h
        rw [if_pos hend, hdrop, hfound]
        exact ⟨b :: (piece ++ ['\n'.toUInt8]), by simp, by simp; omega⟩
      · have hnone : strchr (pre ++ c :: (b :: t ++ 0 :: T)) (pre.length + 2) '\n'.toUInt8 =
            some none := by
          have h := strchr_nowhere (pre ++ [c]) T b hend ht.2 (by decide)
          rw [hp] at h
          rw [hshift]
          exact h
        rw [if_neg hend, hnone]
        rfl
    · rw [if_neg hline, if_neg hline]
      by_cases hblock : b = '*'.toUInt8
      · have hhead : (pre ++ c :: (b :: t ++ 0 :: T))[pre.length + 2]? = some (t.headD 0) := by
          have h := getElem?_next (pre ++ [c]) [] t T b
          rw [hp] at h
          rw [hshift]
          exact h
        rw [if_pos hblock, skipBlockComment, hhead, Option.bind_eq_bind, Option.bind_some]
        cases t with
        | nil =>
          rw [List.headD_nil, if_pos rfl, if_neg fun h => h.2 rfl]
          rfl
        | cons e t =>
          rw [List.mem_cons, not_or] at ht
          have hrest := endOfComment_skips e ht.2.2
            (by simp only [List.length_cons] at hn; omega : t.length < n) (pre ++ [c, b]) T
          rw [List.headD_cons, if_neg (Ne.symm ht.2.1), if_pos ⟨hblock, by simp⟩, List.tail_cons]
          cases hr : Reader.endOfComment e t with
          | none =>
            rw [hr] at hrest
            simpa [Skips] using hrest
          | some r =>
            rw [hr] at hrest
            obtain ⟨w, rfl, hw⟩ := hrest
            refine ⟨b :: e :: w, rfl, ?_⟩
            simp only [List.length_append, List.length_cons, List.length_nil, List.append_assoc,
              List.cons_append, List.nil_append] at hw ⊢
            rw [hw]
            congr 2
            omega
      · rw [if_neg hblock, if_neg (fun h => hblock h.1)]
        rfl

end Comments

section Keys

/-- The string `s` stands in the part `seg` of the buffer, at `i`. -/
def Held (seg : List UInt8) (i : Nat) (s : List UInt8) : Prop :=
  ∃ a b, seg = a ++ (s ++ 0 :: b) ∧ i = a.length

theorem Held.append {seg s : List UInt8} {i : Nat} (h : Held seg i s) (more : List UInt8) :
    Held (seg ++ more) i s := by
  obtain ⟨a, b, rfl, hi⟩ := h
  exact ⟨a, b ++ more, by simp, hi⟩

def HeldKey (seg : List UInt8) : Option Nat → Option (List UInt8) → Prop
  | none, none => True
  | some i, some s => Held seg i s
  | _, _ => False

theorem HeldKey.append {seg : List UInt8} {i : Option Nat} {s : Option (List UInt8)}
    (h : HeldKey seg i s) (more : List UInt8) : HeldKey (seg ++ more) i s := by
  cases i <;> cases s
  · exact h
  · exact h
  · exact h
  · exact Held.append h more

/-- The buffer behind a run on the text `t`, when what was read is found again in the part of the buffer
up to where the text goes on. -/
inductive Outcome {α β : Type} (found : List UInt8 → α → β → Prop) (pre t T : List UInt8) :
    Option (α × Nat) × List UInt8 → Option (β × List UInt8) → Prop
  | error {mess : List UInt8} (hlen : mess.length = t.length) :
      Outcome found pre t T (none, pre ++ (mess ++ 0 :: T)) none
  | ok {w seg rest : List UInt8} {a : α} {b : β} (ht : t = w ++ rest) (hlen : seg.length = w.length)
      (hfound : found (pre ++ seg) a b) :
      Outcome found pre t T (some (a, (pre ++ seg).length), (pre ++ seg) ++ (rest ++ 0 :: T))
        (some (b, rest))

/-- A run that begins behind `w`, in place of which there is `seg` now. -/
theorem Outcome.shift {α β : Type} {found : List UInt8 → α → β → Prop} {pre w seg t T : List UInt8}
    {x : Option (α × Nat) × List UInt8} {r : Option (β × List UInt8)}
    (h : Outcome found (pre ++ seg) t T x r) (hlen : seg.length = w.length) :
    Outcome found pre (w ++ t) T x r := by
  cases h with
  | @error mess hm =>
    have he : pre ++ seg ++ (mess ++ 0 :: T) = pre ++ ((seg ++ mess) ++ 0 :: T) := by simp
    rw [he]
    exact .error (by simp [hm, hlen])
  | @ok w' seg' rest a b ht hl hfound =>
    subst ht
    rw [List.append_assoc] at hfound ⊢
    rw [← List.append_assoc w]
    exact .ok rfl (by simp [hl, hlen]) hfound

theorem Outcome.of_none {α β : Type} {found : List UInt8 → α → β → Prop} {pre t T : List UInt8}
    {x : Option (α × Nat) × List UInt8} (h : Outcome found pre t T x none) :
    ∃ mess, mess.length = t.length ∧ x = (none, pre ++ (mess ++ 0 :: T)) := by
  cases h with
  | error hlen => exact ⟨_, hlen, rfl⟩

theorem Outcome.of_some {α β : Type} {found : List UInt8 → α → β → Prop} {pre t T : List UInt8}
    {x : Option (α × Nat) × List UInt8} {b : β} {rest : List UInt8}
    (h : Outcome found pre t T x (some (b, rest))) :
    ∃ w seg a, t = w ++ rest ∧ seg.length = w.length ∧ found (pre ++ seg) a b ∧
      x = (some (a, (pre ++ seg).length), (pre ++ seg) ++ (rest ++ 0 :: T)) := by
  cases h with
  | ok ht hlen hfound => exact ⟨_, _, _, ht, hlen, hfound, rfl⟩

/-- The text goes on where it stood. -/
theorem Outcome.here {α β : Type} {found : List UInt8 → α → β → Prop} {pre t T : List UInt8} {a : α}
    {b : β} (h : found pre a b) :
    Outcome found pre t T (some (a, pre.length), pre ++ (t ++ 0 :: T)) (some (b, t)) := by
  rw [← List.append_nil pre] at h
  have ho := Outcome.ok (w := []) (T := T) (List.nil_append t).symm (Eq.refl (List.length [])) h
  rwa [List.append_nil] at ho

theorem drop_takeWhile (p : UInt8 → Bool) (t : List UInt8) :
    t.drop (t.takeWhile p).length = t.dropWhile p := by
  induction t with
  | nil => rfl
  | cons c t ih => by_cases hc : p c <;> simp [hc, ih]

theorem skipSpaces_eq {t : List UInt8} (ht : 0 ∉ t) (T : List UInt8) (p : Nat) :
    skipSpaces (t ++ 0 :: T) p = some (p + (t.takeWhile isWhitespace).length) := by
  induction t generalizing p with
  | nil => rfl
  | cons c t ih =>
    rw [List.mem_cons, not_or] at ht
    rw [List.cons_append, skipSpaces]
    by_cases hc : isWhitespace c = true
    · rw [if_pos ⟨Ne.symm ht.1, hc⟩, ih ht.2, List.takeWhile_cons_of_pos hc, List.length_cons]
      congr 1
      omega
    · rw [if_neg fun h => hc h.2, List.takeWhile_cons_of_neg hc]
      rfl

/-- What `parse_key` does behind the key. -/
theorem keyEnd_outcome {seg w rest s : List UInt8} {i : Nat} (ht : 0 ∉ rest) (pre T : List UInt8)
    (hs : Held (pre ++ seg) i s) (hlen : seg.length = w.length) :
    ∃ x, (do
        let q ← skipSpaces (((pre ++ seg) ++ (rest ++ 0 :: T)).drop (pre ++ seg).length)
          (pre ++ seg).length
        if (← ((pre ++ seg) ++ (rest ++ 0 :: T))[q]?) = ':'.toUInt8 then
          some (some (some i, q + 1), (pre ++ seg) ++ (rest ++ 0 :: T))
        else some (none, (pre ++ seg) ++ (rest ++ 0 :: T))) = some x ∧
      Outcome HeldKey pre (w ++ rest) T x
        (if (rest.dropWhile isWhitespace).headD 0 = ':'.toUInt8 then
          some (some s, (rest.dropWhile isWhitespace).tail) else none) := by
  have hsplit : rest = rest.takeWhile isWhitespace ++ rest.dropWhile isWhitespace :=
    List.takeWhile_append_dropWhile.symm
  have hget := getElem?_string (t := rest) (pre ++ seg) T
    (List.takeWhile_sublist isWhitespace (l := rest)).length_le
  rw [drop_takeWhile] at hget
  rw [List.drop_left, skipSpaces_eq ht]
  simp only [Option.bind_eq_bind, Option.bind_some, hget]
  by_cases hcolon : (rest.dropWhile isWhitespace).headD 0 = ':'.toUInt8
  · rw [if_pos hcolon, if_pos hcolon]
    refine ⟨_, rfl, ?_⟩
    generalize rest.takeWhile isWhitespace = spaces at hsplit ⊢
    generalize rest.dropWhile isWhitespace = tail at hsplit hcolon ⊢
    subst hsplit
    cases tail with
    | nil => exact absurd hcolon (by decide)
    | cons c tail =>
      have ho : Outcome HeldKey pre (w ++ (spaces ++ c :: tail)) T
          (some (some i, (pre ++ (seg ++ (spaces ++ [c]))).length),
            (pre ++ (seg ++ (spaces ++ [c]))) ++ (tail ++ 0 :: T)) (some (some s, tail)) := by
        refine .ok (w := w ++ (spaces ++ [c])) (by simp) (by simp [hlen]) ?_
        rw [← List.append_assoc]
        exact hs.append _
      have hp : (pre ++ (seg ++ (spaces ++ [c]))).length = (pre ++ seg).length + spaces.length + 1 := by
        simp [Nat.add_assoc]
      rw [hp] at ho
      rw [List.tail_cons]
      simpa using ho
  · rw [if_neg hcolon, if_neg hcolon]
    refine ⟨_, rfl, ?_⟩
    rw [List.append_assoc, ← List.append_assoc seg]
    exact .error (by simp [hlen])

/-- A string from its opening quote on. -/
theorem unescape_outcome {encoder : Bool} {n : Nat} {t : List UInt8} (ht : 0 ∉ t) (hn : t.length < n)
    (pre T : List UInt8) (c : UInt8) :
    ∃ x, unescape encoder n (pre ++ (c :: t ++ 0 :: T)) (pre.length + 1) (pre.length + 1) =
        some (x.1.map Prod.snd, x.2) ∧
      Outcome (fun buf i s => i = pre.length + 1 ∧ Held buf i s) pre (c :: t) T x
        (Reader.unescape encoder t) := by
  have hp : (pre ++ [c]).length = pre.length + 1 := by simp
  have hbuf : (pre ++ [c]) ++ ([] ++ (t ++ 0 :: T)) = pre ++ (c :: t ++ 0 :: T) := by simp
  have hrun := unescapes encoder ht hn (pre ++ [c]) [] T
  rw [hbuf, List.length_nil, Nat.add_zero, hp] at hrun
  cases hr : Reader.unescape encoder t with
  | none =>
    rw [hr] at hrun
    obtain ⟨mess, hm, hrun⟩ := hrun
    have hmess : pre ++ [c] ++ (mess ++ 0 :: T) = pre ++ (c :: mess ++ 0 :: T) := by simp
    rw [hmess] at hrun
    exact ⟨(none, _), hrun, .error (by simpa using hm)⟩
  | some sr =>
    obtain ⟨s, rest⟩ := sr
    rw [hr] at hrun
    obtain ⟨w, gap, rfl, hlen, hrun⟩ := hrun
    have hseg : pre ++ [c] ++ (s ++ 0 :: gap) = pre ++ (c :: (s ++ 0 :: gap)) := by simp
    rw [hseg] at hrun
    exact ⟨(some (pre.length + 1, _), _), hrun,
      .ok (w := c :: w) rfl (by simpa using hlen) ⟨rfl, pre ++ [c], gap, by simp, hp.symm⟩⟩

theorem parseKey_outcome {encoder : Bool} {n : Nat} {t : List UInt8} (ht : 0 ∉ t) (hn : t.length < n)
    (pre T : List UInt8) : ∃ x r, parseKey encoder n (pre ++ (t ++ 0 :: T)) pre.length = some x ∧
      Reader.key encoder n t = some r ∧ Outcome HeldKey pre t T x r := by
  induction n generalizing t pre with
  | zero => omega
  | succ n ih =>
    cases t with
    | nil =>
      refine ⟨_, none, ?_, rfl, .error (t := []) rfl⟩
      rw [parseKey, List.nil_append, getElem?_first]
      rfl
    | cons c t =>
      rw [List.mem_cons, not_or] at ht
      rw [List.length_cons] at hn
      have hhead : (pre ++ (c :: t ++ 0 :: T))[pre.length]? = some c :=
        getElem?_head pre [] (t ++ 0 :: T) c
      have hbuf : pre ++ (c :: t ++ 0 :: T) = (pre ++ [c]) ++ (t ++ 0 :: T) := by simp
      have hp : (pre ++ [c]).length = pre.length + 1 := by simp
      rw [parseKey, hhead, Option.bind_eq_bind, Option.bind_some, if_neg (Ne.symm ht.1), Reader.key]
      by_cases hquote : c = '"'.toUInt8
      · obtain ⟨⟨xo, buf⟩, hx, ho⟩ :=
          @unescape_outcome encoder n t ht.2 (by omega) pre T c
        rw [if_pos hquote, if_pos hquote, hx]
        cases hr : Reader.unescape encoder t with
        | none =>
          rw [hr] at ho
          cases ho with
          | error hlen => exact ⟨_, none, rfl, rfl, .error hlen⟩
        | some sr =>
          obtain ⟨s, rest⟩ := sr
          rw [hr] at ho
          obtain ⟨w, seg, i, hw, hlen, ⟨rfl, hheld⟩, hxo⟩ := ho.of_some
          obtain ⟨rfl, rfl⟩ := Prod.mk.inj hxo
          have hrest : 0 ∉ rest := by
            intro h
            have hmem : 0 ∈ c :: t := hw ▸ List.mem_append_right w h
            rw [List.mem_cons] at hmem
            exact hmem.elim ht.1 ht.2
          obtain ⟨x, hx, ho⟩ := keyEnd_outcome hrest pre T hheld hlen
          rw [← hw] at ho
          exact ⟨x, _, hx, (apply_ite some _ _ _).symm, ho⟩
      rw [if_neg hquote, if_neg hquote]
      by_cases hspace : isWhitespace c = true ∨ c = ','.toUInt8
      · obtain ⟨x, r, hx, hr, ho⟩ := ih ht.2 (by omega) (pre ++ [c])
        rw [hp] at hx
        rw [if_pos hspace, if_pos hspace, hbuf]
        exact ⟨x, r, hx, hr, ho.shift (w := [c]) rfl⟩
      rw [if_neg hspace, if_neg hspace]
      by_cases hclose : c = '}'.toUInt8
      · rw [if_pos hclose, if_pos hclose]
        exact ⟨_, _, rfl, rfl, .here trivial⟩
      rw [if_neg hclose, if_neg hclose]
      by_cases hslash : c = '/'.toUInt8
      · have hskip := skipComment_skips c ht.2 (by omega : t.length < n) pre T
        rw [if_pos hslash, if_pos hslash]
        cases hr : Reader.skipComment t with
        | none =>
          rw [hr] at hskip
          rw [List.cons_append, hskip]
          exact ⟨_, none, rfl, rfl, .error (t := c :: t) rfl⟩
        | some rest =>
          rw [hr] at hskip
          obtain ⟨w, rfl, hw⟩ := hskip
          obtain ⟨x, r, hx, hr, ho⟩ := ih (fun h => ht.2 (List.mem_append_right w h))
            (by simp only [List.length_append] at hn; omega : rest.length < n) (pre ++ c :: w)
          have hlen : (pre ++ c :: w).length = pre.length + 1 + w.length := by
            rw [List.length_append, List.length_cons]
            omega
          rw [hlen, List.append_assoc, List.cons_append, ← List.append_assoc w] at hx
          rw [List.cons_append, hw]
          exact ⟨x, r, hx, hr, ho.shift (w := c :: w) rfl⟩
      · rw [if_neg hslash, if_neg hslash]
        exact ⟨_, none, rfl, rfl, .error rfl⟩

end Keys

end EdgeNode.Nxjson
