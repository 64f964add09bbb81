import EdgeNode.Nxjson.Numbers

/-! A text of JSON is read as the tree of its value, when its numbers are in range. -/

namespace EdgeNode.Nxjson

open JsonText Utf8 Reader

section Taken

/-- Some characters are taken of a text, up to `rest`. -/
def Taken (cs rest : List Char) : Prop := ∃ w, w ≠ [] ∧ cs = w ++ rest

variable {cs ds rest : List Char}

theorem Taken.length_lt (h : Taken cs rest) : rest.length < cs.length := by
  obtain ⟨w, hw, rfl⟩ := h
  have hpos := List.length_pos_of_ne_nil hw
  rw [List.length_append]
  omega

theorem Taken.append (w : List Char) (h : Taken cs rest) : Taken (w ++ cs) rest := by
  obtain ⟨v, hv, rfl⟩ := h
  exact ⟨w ++ v, by simp [hv], by simp⟩

theorem Taken.cons (c : Char) (h : Taken cs rest) : Taken (c :: cs) rest := h.append [c]

theorem Taken.trans (h : Taken cs ds) (h' : Taken ds rest) : Taken cs rest := by
  obtain ⟨w, -, rfl⟩ := h
  exact h'.append w

theorem taken_mark (ws : List Char) (c : Char) (rest : List Char) : Taken (ws ++ c :: rest) rest :=
  ⟨ws ++ [c], by simp, by simp⟩

theorem chars_taken {s : List Char} (h : Chars cs s rest) : Taken cs rest := by
  induction h with
  | @close rest => exact taken_mark [] '"' rest
  | char _ _ _ _ ih => exact ih.cons _
  | @escape e c t cs s rest ht _ _ ih =>
    rw [ht]
    exact (ih.append e).cons '\\'

theorem length_le_encode (cs : List Char) : cs.length ≤ (encode cs).length := by
  induction cs with
  | nil => exact Nat.le_refl _
  | cons c cs ih =>
    have hne : (String.utf8EncodeChar c).length ≠ 0 := by
      rw [encodeChar_eq]
      split_ifs <;> simp
    rw [encode_cons, List.length_cons, List.length_append]
    omega

end Taken

section Skipped

/-- Characters that are skipped before a value and before a key. -/
def Skipped (cs : List Char) : Prop := ∀ c ∈ cs, JsonText.isSpace c ∨ c = ','

theorem Skipped.mem {cs : List Char} (h : Skipped cs) {c : Char} (hc : c ∈ cs) :
    c ∈ [' ', '\t', '\n', '\r', ','] := by
  obtain hs | rfl := h c hc
  · simp only [JsonText.isSpace, List.mem_cons, List.not_mem_nil, or_false] at hs
    obtain rfl | rfl | rfl | rfl := hs <;> simp
  · simp

theorem skipped_spaces {ws : List Char} (h : Spaces ws) : Skipped ws := fun c hc => .inl (h c hc)

theorem skipped_comma {ws : List Char} (h : Spaces ws) : Skipped (ws ++ [',']) := by
  intro c hc
  rw [List.mem_append, List.mem_singleton] at hc
  exact hc.imp_left (h c)

variable {δ : Type} {d : Doubles δ} {skip : List Char}

theorem value_skip (h : Skipped skip) (n : Nat) (key : Option (List UInt8)) (cs : List Char) (e : Bool) :
    value d true (n + skip.length) key (encode (skip ++ cs)) e = value d true n key (encode cs) e := by
  induction skip with
  | nil => rfl
  | cons c skip ih =>
    have hall : ∀ c ∈ [' ', '\t', '\n', '\r', ','], c.toNat < 128 ∧ (c.toUInt8 = ' '.toUInt8 ∨
        c.toUInt8 = '\t'.toUInt8 ∨ c.toUInt8 = '\n'.toUInt8 ∨ c.toUInt8 = '\r'.toUInt8 ∨
        c.toUInt8 = ','.toUInt8) := forall_mem_of_all (by decide)
    obtain ⟨hascii, hc⟩ := hall c (h.mem List.mem_cons_self)
    rw [List.cons_append, encode_ascii hascii, List.length_cons, ← Nat.add_assoc, value, if_pos hc]
    exact ih fun c hc => h c (List.mem_cons_of_mem _ hc)

theorem key_skip (h : Skipped skip) (n : Nat) (cs : List Char) :
    key true (n + skip.length) (encode (skip ++ cs)) = key true n (encode cs) := by
  induction skip with
  | nil => rfl
  | cons c skip ih =>
    have hall : ∀ c ∈ [' ', '\t', '\n', '\r', ','], c.toNat < 128 ∧ c.toUInt8 ≠ '"'.toUInt8 ∧
        (isWhitespace c.toUInt8 = true ∨ c.toUInt8 = ','.toUInt8) := forall_mem_of_all (by decide)
    obtain ⟨hascii, hquote, hc⟩ := hall c (h.mem List.mem_cons_self)
    rw [List.cons_append, encode_ascii hascii, List.length_cons, ← Nat.add_assoc, key, if_neg hquote,
      if_pos hc]
    exact ih fun c hc => h c (List.mem_cons_of_mem _ hc)

/-- The spaces behind a key. -/
theorem dropWhile_spaces {ws : List Char} (h : Spaces ws) (cs : List Char) :
    (encode (ws ++ ':' :: cs)).dropWhile isWhitespace = encode (':' :: cs) := by
  induction ws with
  | nil =>
    rw [List.nil_append, encode_ascii (by decide)]
    exact List.dropWhile_cons_of_neg (by decide)
  | cons c ws ih =>
    have hall : ∀ c ∈ [' ', '\t', '\n', '\r', ','], c ≠ ',' →
        c.toNat < 128 ∧ isWhitespace c.toUInt8 = true := forall_mem_of_all (by decide)
    have hne : c ≠ ',' := by
      rintro rfl
      exact absurd (h ',' List.mem_cons_self) (by simp [JsonText.isSpace])
    obtain ⟨hascii, hc⟩ := hall c ((skipped_spaces h).mem List.mem_cons_self) hne
    rw [List.cons_append, encode_ascii hascii, List.dropWhile_cons_of_pos hc]
    exact ih fun c hc => h c (List.mem_cons_of_mem _ hc)

theorem key_member {n : Nat} {cs s ws cs' : List Char} (hskip : Skipped skip) (hn : skip.length < n)
    (hs : Chars cs s (ws ++ ':' :: cs')) (hws : Spaces ws) :
    key true n (encode (skip ++ '"' :: cs)) = some (some (some (encode s), encode cs')) := by
  obtain ⟨m, rfl⟩ := Nat.exists_eq_add_of_lt hn
  have hm : skip.length + m + 1 = m + 1 + skip.length := by omega
  rw [hm, key_skip hskip, encode_ascii (by decide), key, if_pos rfl, unescape_chars hs]
  dsimp only
  rw [dropWhile_spaces hws, encode_ascii (by decide), List.headD_cons, if_pos rfl, List.tail_cons]

theorem key_end {n : Nat} (hskip : Skipped skip) (hn : skip.length < n) (rest : List Char) :
    key true n (encode (skip ++ '}' :: rest)) = some (some (none, encode ('}' :: rest))) := by
  obtain ⟨m, rfl⟩ := Nat.exists_eq_add_of_lt hn
  have hm : skip.length + m + 1 = m + 1 + skip.length := by omega
  rw [hm, key_skip hskip, encode_ascii (by decide), key, if_neg (by decide), if_neg (by decide),
    if_pos rfl]

end Skipped

variable {δ : Type} (d : Doubles δ) (round : ℚ → δ)

/-- The trees of a value, with the bytes of keys and strings in UTF-8. -/
inductive Means : Option (List UInt8) → Node δ (List UInt8) → Json → Prop
  | null {key : Option (List UInt8)} : Means key (.mk key .null []) .null
  | bool {key : Option (List UInt8)} (b : Bool) :
      Means key (.mk key (.bool (if b then 1 else 0)) []) (.bool b)
  | number {key : Option (List UInt8)} {v : Value δ (List UInt8)} {x : ℚ}
      (h : MeansNumber d round v x) : Means key (.mk key v []) (.number x)
  | string {key : Option (List UInt8)} (s : List Char) :
      Means key (.mk key (.string (encode s)) []) (.string s)
  | array {key : Option (List UInt8)} {child : List (Node δ (List UInt8))} {items : List Json}
      (h : List.Forall₂ (Means none) child items) : Means key (.mk key .array child) (.array items)
  | object {key : Option (List UInt8)} {child : List (Node δ (List UInt8))}
      {members : List (List Char × Json)}
      (h : List.Forall₂ (fun js m => Means (some (encode m.1)) js m.2) child members) :
      Means key (.mk key .object child) (.object members)

inductive HasNumber : Json → Prop
  | number (x : ℚ) : HasNumber (.number x)
  | array {items : List Json} {j : Json} (hj : j ∈ items) (h : HasNumber j) : HasNumber (.array items)
  | object {members : List (List Char × Json)} {m : List Char × Json} (hm : m ∈ members)
      (h : HasNumber m.2) : HasNumber (.object members)

/-- A numeral stands in the text that does not fit. -/
def OutOfRange (range : ℚ → Prop) (cs : List Char) : Prop :=
  ∃ p ds rest x, cs = p ++ (ds ++ rest) ∧ (∀ c ∈ p.getLast?, ¬ isNumberChar c) ∧ NumberText ds x ∧
    Delimited rest ∧ ¬ Fits range ds x

/-- The result is a good one before the text `rest`. It fails on numbers only, with `ERANGE`: on one out
of range, and on every number when `ERANGE` has been there before. -/
def Answer {α : Type} (e : Bool) (num out : Prop) (good : α → Prop) (rest : List Char)
    (r : Option (Option (α × List UInt8) × Bool)) : Prop :=
  (num ∧ (e = true ∨ out) ∧ r = some (none, true)) ∨
    ∃ a, r = some (some (a, encode rest), e) ∧ (e = true → ¬ num) ∧ good a

/-- The node of a value. -/
def IsNode (key : Option (List UInt8)) (j : Json) (js : Option (Node δ (List UInt8))) : Prop :=
  ∃ node, js = some node ∧ Means d round key node j

variable {d round}

theorem OutOfRange.behind {range : ℚ → Prop} {cs : List Char} {c : Char} (w : List Char)
    (hc : ¬ isNumberChar c) (h : OutOfRange range cs) : OutOfRange range (w ++ c :: cs) := by
  obtain ⟨p, ds, rest, x, rfl, hp, hds, hrest, hfits⟩ := h
  refine ⟨w ++ c :: p, ds, rest, x, by simp, ?_, hds, hrest, hfits⟩
  cases p with
  | nil => simpa using hc
  | cons b p => simpa [List.getLast?_append, List.getLast?_cons_cons] using hp

/-- Behind what is taken up to a mark. -/
theorem OutOfRange.mark {range : ℚ → Prop} {cs ws cs' : List Char} {c : Char} (hc : ¬ isNumberChar c)
    (ht : Taken cs (ws ++ c :: cs')) (h : OutOfRange range cs') : OutOfRange range cs := by
  obtain ⟨w, -, rfl⟩ := ht
  rw [← List.append_assoc]
  exact h.behind (w ++ ws) hc

theorem not_numberChar_of_mem {c : Char} (h : c ∈ [' ', '\t', '\n', '\r', ',', ':', '[', '{']) :
    ¬ isNumberChar c := by
  have hall : ∀ c ∈ [' ', '\t', '\n', '\r', ',', ':', '[', '{'],
      ¬ isNumberChar c := forall_mem_of_all (by decide)
  exact hall c h

/-- A result is wrapped up, behind what has been read before. -/
theorem Answer.map {α β : Type} {e : Bool} {num num' out out' : Prop} {good : α → Prop}
    {good' : β → Prop} {rest : List Char} {r : Option (Option (α × List UInt8) × Bool)} (f : α → β)
    (h : Answer e num out good rest r) (hnum : num → num') (hout : out → out')
    (hnum' : (e = true → ¬ num) → e = true → ¬ num') (hf : ∀ a, good a → good' (f a)) :
    Answer e num' out' good' rest (r.map fun r => (r.1.map fun x => (f x.1, x.2), r.2)) := by
  obtain ⟨hn, ho, rfl⟩ | ⟨a, rfl, hn, ha⟩ := h
  · exact .inl ⟨hnum hn, ho.imp_right hout, rfl⟩
  · exact .inr ⟨f a, rfl, hnum' hn, hf a ha⟩

section Ends

variable {skip : List Char} {n : Nat}

theorem items_end (hskip : Skipped skip) (hn : skip.length + 2 ≤ n) (rest : List Char) (e : Bool) :
    items d true n (encode (skip ++ ']' :: rest)) e = some (some ([], encode rest), e) := by
  obtain ⟨m, rfl⟩ := Nat.exists_eq_add_of_le hn
  have hm : skip.length + 2 + m = m + 1 + skip.length + 1 := by omega
  have hvalue : value d true (m + 1) none (encode (']' :: rest)) e =
      some (some (none, encode (']' :: rest)), e) := by
    rw [encode_ascii (by decide), value, if_neg (by decide), if_neg (by decide), if_neg (by decide),
      if_pos rfl]
  rw [hm, items, value_skip hskip, hvalue, Option.bind_eq_bind, Option.bind_some]
  dsimp only
  rw [encode_ascii (by decide), List.headD_cons, if_pos rfl]
  rfl

theorem members_end (hskip : Skipped skip) (hn : skip.length + 2 ≤ n) (rest : List Char) (e : Bool) :
    members d true n (encode (skip ++ '}' :: rest)) e = some (some ([], encode rest), e) := by
  obtain ⟨m, rfl⟩ := Nat.exists_eq_add_of_le hn
  have hm : skip.length + 2 + m = skip.length + 1 + m + 1 := by omega
  rw [hm, members, key_end hskip (by omega), Option.bind_eq_bind, Option.bind_some]
  dsimp only
  rw [encode_ascii (by decide), List.headD_cons, if_pos rfl]
  rfl

end Ends

section Cases

variable {range : ℚ → Prop} {n : Nat} {key : Option (List UInt8)} {cs rest : List Char}

theorem word_reads {w : String} (hw : ∀ c ∈ w.toList, c.toNat < 128) (v : Value δ (List UInt8))
    (rest : List Char) : word w v key (encode (w.toList ++ rest)) =
      some (some (.mk key v []), encode rest) := by
  have hbytes : encode w.toList = w.toList.map Char.toUInt8 := by
    generalize w.toList = l at hw ⊢
    induction l with
    | nil => rfl
    | cons c l ih =>
      rw [encode_ascii (hw c List.mem_cons_self), List.map_cons,
        ih fun d hd => hw d (List.mem_cons_of_mem _ hd)]
  rw [word, encode_append, hbytes, if_pos (List.prefix_append _ _), List.drop_left]

/-- The case of a number is not one of those before it. -/
theorem value_number {c : UInt8} (hc : startsNumber c = true) (n : Nat) (t : List UInt8) (e : Bool) :
    value d true (n + 1) key (c :: t) e =
      some ((number d (c :: t) e).1.map fun x => (some (.mk key x.1 []), x.2),
        (number d (c :: t) e).2) := by
  have hne : ∀ b : UInt8, startsNumber b = false → c ≠ b := by
    rintro b hb rfl
    rw [hb] at hc
    cases hc
  rw [value, if_neg, if_neg (hne _ rfl), if_neg (hne _ rfl), if_neg (hne _ rfl), if_neg (hne _ rfl),
    if_pos hc]
  rintro (h | h | h | h | h) <;> exact hne _ rfl h

theorem numeral_head {ds : List Char} {x : ℚ} (h : NumberText ds x) :
    ∃ c ds', ds = c :: ds' ∧ c.toNat < 128 ∧ startsNumber c.toUInt8 = true := by
  obtain ⟨neg, hds, -, -, -⟩ := h
  cases neg with
  | true => exact ⟨'-', _, rfl, by decide, by decide⟩
  | false =>
    rename_i ds fs es x e
    obtain ⟨c, ds, rfl⟩ := List.exists_cons_of_ne_nil hds.1
    have hdigit := hds.2 c List.mem_cons_self
    have hascii := numberChar_ascii (.inl hdigit : isNumberChar c)
    have hc : 48 ≤ c.toNat ∧ c.toNat ≤ 57 := by
      simpa [Char.isDigit, UInt32.le_iff_toNat_le] using hdigit
    refine ⟨c, _, rfl, hascii, decide_eq_true (.inr ?_)⟩
    rw [UInt8.le_iff_toNat_le, UInt8.le_iff_toNat_le, toNat_toUInt8 hascii]
    exact hc

/-- What is proved of a text that a value is read from. -/
def ReadsRight (d : Doubles δ) (round : ℚ → δ) (range : ℚ → Prop) (cs : List Char) (j : Json)
    (rest : List Char) : Prop :=
  Taken cs rest ∧ (Delimited rest → ∀ {n : Nat} (key : Option (List UInt8)) (e : Bool),
    2 * cs.length + 1 ≤ n → Answer e (HasNumber j) (OutOfRange range cs) (IsNode d round key j) rest
      (value d true n key (encode cs) e))

def MemberRight (d : Doubles δ) (round : ℚ → δ) (range : ℚ → Prop) (cs : List Char)
    (m : List Char × Json) (rest : List Char) : Prop :=
  ∃ ws cs' ws' cs'', cs = ws ++ '"' :: cs' ∧ Spaces ws ∧ Chars cs' m.1 (ws' ++ ':' :: cs'') ∧
    Spaces ws' ∧ Reads cs'' m.2 rest ∧ ReadsRight d round range cs'' m.2 rest

def ItemsRight (d : Doubles δ) (round : ℚ → δ) (range : ℚ → Prop) (cs : List Char) (js : List Json)
    (rest : List Char) : Prop :=
  Taken cs rest ∧ ∀ {n : Nat} (skip : List Char) (e : Bool), Skipped skip →
    2 * (skip ++ cs).length + 2 ≤ n → Answer e (∃ j ∈ js, HasNumber j) (OutOfRange range cs)
      (fun child => List.Forall₂ (Means d round none) child js) rest
        (items d true n (encode (skip ++ cs)) e)

def MembersRight (d : Doubles δ) (round : ℚ → δ) (range : ℚ → Prop) (cs : List Char)
    (ms : List (List Char × Json)) (rest : List Char) : Prop :=
  Taken cs rest ∧ ∀ {n : Nat} (skip : List Char) (e : Bool), Skipped skip →
    2 * (skip ++ cs).length + 2 ≤ n →
      Answer e (∃ m ∈ ms, HasNumber m.2) (OutOfRange range cs)
        (fun child => List.Forall₂ (fun js m => Means d round (some (encode m.1)) js m.2) child ms)
          rest (members d true n (encode (skip ++ cs)) e)

variable {j : Json}

theorem ReadsRight.space {c : Char} (hc : JsonText.isSpace c) (h : ReadsRight d round range cs j rest) :
    ReadsRight d round range (c :: cs) j rest := by
  obtain ⟨htaken, hread⟩ := h
  refine ⟨htaken.cons c, fun hrest n key e hn => ?_⟩
  rw [List.length_cons] at hn
  obtain ⟨m, rfl⟩ : ∃ m, n = m + 1 := ⟨n - 1, by omega⟩
  have hskip : Skipped [c] := by
    intro b hb
    rw [List.mem_singleton] at hb
    exact .inl (hb ▸ hc)
  have hrun : value d true (m + 1) key (encode (c :: cs)) e = value d true m key (encode cs) e :=
    value_skip hskip m key cs e
  have hnumber : ¬ isNumberChar c := by
    refine not_numberChar_of_mem ?_
    simp only [JsonText.isSpace, List.mem_cons, List.not_mem_nil, or_false] at hc
    obtain rfl | rfl | rfl | rfl := hc <;> simp
  rw [hrun]
  obtain ⟨hnum, hout, hv⟩ | ⟨a, hv, hnum, ha⟩ := hread hrest key e (by omega : 2 * cs.length + 1 ≤ m)
  · exact .inl ⟨hnum, hout.imp_right fun h => h.behind [] hnumber, hv⟩
  · exact .inr ⟨a, hv, hnum, ha⟩

theorem readsRight_word {w : String} {v : Value δ (List UInt8)} {t : List Char} (hw : w.toList = t)
    (hne : t ≠ []) (hascii : ∀ c ∈ t, c.toNat < 128)
    (hvalue : ∀ n key cs e, value d true (n + 1) key (encode (t ++ cs)) e =
      some (word w v key (encode (t ++ cs)), e)) (hnum : ¬ HasNumber j)
    (hmeans : ∀ key, Means d round key (.mk key v []) j) (rest : List Char) :
    ReadsRight d round range (t ++ rest) j rest := by
  subst hw
  refine ⟨⟨_, hne, rfl⟩, fun _ n key e hn => ?_⟩
  obtain ⟨m, rfl⟩ : ∃ m, n = m + 1 := ⟨n - 1, by omega⟩
  rw [hvalue, word_reads hascii]
  exact .inr ⟨_, rfl, fun _ => hnum, _, rfl, hmeans key⟩

theorem readsRight_number (hd : Rounds d round range) {ds : List Char} {x : ℚ} (h : NumberText ds x)
    (rest : List Char) : ReadsRight d round range (ds ++ rest) (.number x) rest := by
  obtain ⟨c, ds', hds, hascii, hc⟩ := numeral_head h
  refine ⟨⟨ds, by simp [hds], rfl⟩, fun hrest n key e hn => ?_⟩
  obtain ⟨m, rfl⟩ : ∃ m, n = m + 1 := ⟨n - 1, by omega⟩
  have hbytes : encode (ds ++ rest) = c.toUInt8 :: encode (ds' ++ rest) := by
    rw [hds, List.cons_append, encode_ascii hascii]
  rw [hbytes, value_number hc, ← hbytes]
  cases e with
  | true =>
    rw [number_sticky]
    exact .inl ⟨.number x, .inl rfl, rfl⟩
  | false =>
    obtain ⟨hfits, hr⟩ | ⟨v, hr, hv⟩ := number_numeral hd h hrest
    · rw [hr]
      exact .inl ⟨.number x, .inr ⟨[], ds, rest, x, rfl, by simp, h, hrest, hfits⟩, rfl⟩
    · rw [hr]
      exact .inr ⟨_, rfl, fun h => absurd h Bool.false_ne_true, _, rfl, .number hv⟩

theorem readsRight_string {s : List Char} (h : Chars cs s rest) :
    ReadsRight d round range ('"' :: cs) (.string s) rest := by
  refine ⟨(chars_taken h).cons '"', fun hrest n key e hn => ?_⟩
  obtain ⟨m, rfl⟩ : ∃ m, n = m + 1 := ⟨n - 1, by omega⟩
  rw [encode_ascii (by decide), value, if_neg (by decide), if_neg (by decide), if_neg (by decide),
    if_neg (by decide), if_pos rfl, unescape_chars h]
  refine .inr ⟨_, rfl, fun _ hnum => ?_, _, rfl, .string s⟩
  cases hnum

theorem readsRight_emptyArray {ws : List Char} (hws : Spaces ws) (hcs : cs = ws ++ ']' :: rest) :
    ReadsRight d round range ('[' :: cs) (.array []) rest := by
  subst hcs
  refine ⟨(taken_mark ws ']' rest).cons '[', fun _ n key e hn => ?_⟩
  obtain ⟨m, rfl⟩ : ∃ m, n = m + 1 := ⟨n - 1, by omega⟩
  simp only [List.length_cons, List.length_append] at hn
  rw [encode_ascii (by decide), value, if_neg (by decide), if_neg (by decide), if_pos rfl,
    items_end (skipped_spaces hws) (by omega)]
  refine .inr ⟨_, rfl, fun _ hnum => ?_, _, rfl, .array .nil⟩
  cases hnum with
  | array hm => simp at hm

theorem readsRight_emptyObject {ws : List Char} (hws : Spaces ws) (hcs : cs = ws ++ '}' :: rest) :
    ReadsRight d round range ('{' :: cs) (.object []) rest := by
  subst hcs
  refine ⟨(taken_mark ws '}' rest).cons '{', fun _ n key e hn => ?_⟩
  obtain ⟨m, rfl⟩ : ∃ m, n = m + 1 := ⟨n - 1, by omega⟩
  simp only [List.length_cons, List.length_append] at hn
  rw [encode_ascii (by decide), value, if_neg (by decide), if_pos rfl,
    members_end (skipped_spaces hws) (by omega)]
  refine .inr ⟨_, rfl, fun _ hnum => ?_, _, rfl, .object .nil⟩
  cases hnum with
  | object hm => simp at hm

theorem ItemsRight.array {js : List Json} (h : ItemsRight d round range cs js rest) :
    ReadsRight d round range ('[' :: cs) (.array js) rest := by
  obtain ⟨htaken, hitems⟩ := h
  refine ⟨htaken.cons '[', fun _ n key e hn => ?_⟩
  obtain ⟨m, rfl⟩ : ∃ m, n = m + 1 := ⟨n - 1, by omega⟩
  rw [List.length_cons] at hn
  rw [encode_ascii (by decide), value, if_neg (by decide), if_neg (by decide), if_pos rfl]
  have hchild := @hitems m [] e (by simp [Skipped]) (by rw [List.nil_append]; omega)
  refine hchild.map (fun child => some (Node.mk key .array child)) ?_
    (fun h => h.behind [] (not_numberChar_of_mem (by simp))) ?_ fun child hchild =>
    ⟨_, rfl, .array hchild⟩
  · rintro ⟨j, hj, h⟩
    exact .array hj h
  · intro hnone he hnum
    cases hnum with
    | array hj h => exact hnone he ⟨_, hj, h⟩

theorem MembersRight.object {ms : List (List Char × Json)} (h : MembersRight d round range cs ms rest) :
    ReadsRight d round range ('{' :: cs) (.object ms) rest := by
  obtain ⟨htaken, hmembers⟩ := h
  refine ⟨htaken.cons '{', fun _ n key e hn => ?_⟩
  obtain ⟨m, rfl⟩ : ∃ m, n = m + 1 := ⟨n - 1, by omega⟩
  rw [List.length_cons] at hn
  rw [encode_ascii (by decide), value, if_neg (by decide), if_pos rfl]
  have hchild := @hmembers m [] e (by simp [Skipped]) (by rw [List.nil_append]; omega)
  refine hchild.map (fun child => some (Node.mk key .object child)) ?_
    (fun h => h.behind [] (not_numberChar_of_mem (by simp))) ?_ fun child hchild =>
    ⟨_, rfl, .object hchild⟩
  · rintro ⟨m, hm, h⟩
    exact .object hm h
  · intro hnone he hnum
    cases hnum with
    | object hm h => exact hnone he ⟨_, hm, h⟩

end Cases

section Lists

variable {range : ℚ → Prop} {cs ws rest : List Char} {n : Nat} {skip : List Char}

theorem delimited_mark {c : Char} (hc : c = ',' ∨ c = ']' ∨ c = '}') {ws : List Char} (hws : Spaces ws)
    (cs : List Char) : Delimited (ws ++ c :: cs) := by
  refine delimited_spaces hws ?_
  rintro _ ⟨⟩
  exact .inr hc

/-- The item at the head of a list, and the loop from behind it on. -/
theorem items_next {j : Json} {r : List Char} (h : ReadsRight d round range cs j r) (hr : Delimited r)
    (hskip : Skipped skip) (hn : 2 * (skip ++ cs).length + 1 ≤ n) (e : Bool) :
    (HasNumber j ∧ (e = true ∨ OutOfRange range cs) ∧
      items d true (n + 1) (encode (skip ++ cs)) e = some (none, true)) ∨
      ∃ js, (e = true → ¬ HasNumber j) ∧ Means d round none js j ∧
        items d true (n + 1) (encode (skip ++ cs)) e =
          if (encode r).headD 0 = ']'.toUInt8 then some (some ([js], (encode r).tail), e)
          else (items d true n (encode r) e).map fun x => (x.1.map fun y => (js :: y.1, y.2), x.2) := by
  rw [List.length_append] at hn
  obtain ⟨m, rfl⟩ : ∃ m, n = m + skip.length := ⟨n - skip.length, by omega⟩
  rw [items, value_skip hskip]
  obtain ⟨hnum, hout, hv⟩ | ⟨_, hv, hnum, js, rfl, hjs⟩ := @h.2 hr m none e (by omega)
  · rw [hv]
    exact .inl ⟨hnum, hout, rfl⟩
  · rw [hv]
    exact .inr ⟨js, hnum, hjs, rfl⟩

theorem head_skipped (h : Skipped skip) (hne : skip ≠ []) (cs : List Char) :
    (encode (skip ++ cs)).headD 0 ≠ ']'.toUInt8 := by
  obtain ⟨c, skip, rfl⟩ := List.exists_cons_of_ne_nil hne
  have hall : ∀ c ∈ [' ', '\t', '\n', '\r', ','], c.toNat < 128 ∧ c.toUInt8 ≠ ']'.toUInt8 :=
    forall_mem_of_all (by decide)
  obtain ⟨hascii, hc⟩ := hall c (h.mem List.mem_cons_self)
  rwa [List.cons_append, encode_ascii hascii, List.headD_cons]

/-- No value begins with a closing brace. -/
theorem reads_head {j : Json} (h : Reads cs j rest) : (encode cs).headD 0 ≠ '}'.toUInt8 := by
  have hhead : ∀ (c : Char) (cs : List Char), c.toNat < 128 → c.toUInt8 ≠ '}'.toUInt8 →
      (encode (c :: cs)).headD 0 ≠ '}'.toUInt8 := by
    intro c cs hascii hc
    rwa [encode_ascii hascii, List.headD_cons]
  cases h with
  | space hs =>
    have hall : ∀ c ∈ [' ', '\t', '\n', '\r', ','], c.toNat < 128 ∧ c.toUInt8 ≠ '}'.toUInt8 :=
      forall_mem_of_all (by decide)
    have hspaces : Spaces [_] := List.forall_mem_singleton.mpr hs
    obtain ⟨hascii, hc⟩ := hall _ ((skipped_spaces hspaces).mem List.mem_cons_self)
    exact hhead _ _ hascii hc
  | number hcs hn =>
    obtain ⟨c, ds', hds, hascii, hc⟩ := numeral_head hn
    rw [hcs, hds]
    refine hhead c _ hascii ?_
    intro hbrace
    rw [hbrace] at hc
    exact absurd hc (by decide)
  | null => exact hhead _ _ (by decide) (by decide)
  | false => exact hhead _ _ (by decide) (by decide)
  | true => exact hhead _ _ (by decide) (by decide)
  | string => exact hhead _ _ (by decide) (by decide)
  | emptyArray => exact hhead _ _ (by decide) (by decide)
  | array => exact hhead _ _ (by decide) (by decide)
  | emptyObject => exact hhead _ _ (by decide) (by decide)
  | object => exact hhead _ _ (by decide) (by decide)

theorem members_next {m : List Char × Json} {r : List Char} (h : MemberRight d round range cs m r)
    (hr : Delimited r) (hskip : Skipped skip) (hn : 2 * (skip ++ cs).length + 1 ≤ n) (e : Bool) :
    (HasNumber m.2 ∧ (e = true ∨ OutOfRange range cs) ∧
      members d true (n + 1) (encode (skip ++ cs)) e = some (none, true)) ∨
      ∃ js, (e = true → ¬ HasNumber m.2) ∧ Means d round (some (encode m.1)) js m.2 ∧
        members d true (n + 1) (encode (skip ++ cs)) e =
          (members d true n (encode r) e).map fun x => (x.1.map fun y => (js :: y.1, y.2), x.2) := by
  obtain ⟨ws, cs', ws', cs'', rfl, hws, hchars, hws', hreads, htaken, hright⟩ := h
  have hmember := ((chars_taken hchars).cons '"').append ws
  have hkeyed := (chars_taken hchars).length_lt
  have hskip' : Skipped (skip ++ ws) := by
    intro c hc
    obtain hc | hc := List.mem_append.mp hc
    · exact hskip c hc
    · exact .inl (hws c hc)
  simp only [List.length_append, List.length_cons] at hn hkeyed
  rw [← List.append_assoc, members,
    key_member hskip' (by rw [List.length_append]; omega) hchars hws', Option.bind_eq_bind,
    Option.bind_some]
  dsimp only
  rw [if_neg (reads_head hreads)]
  obtain ⟨hnum, hout, hv⟩ | ⟨_, hv, hnum, js, rfl, hjs⟩ :=
    @hright hr n (some (encode m.1)) e (by omega)
  · rw [hv]
    exact .inl ⟨hnum, hout.imp_right (.mark (not_numberChar_of_mem (by simp)) hmember), rfl⟩
  · rw [hv]
    exact .inr ⟨js, hnum, hjs, rfl⟩

theorem MemberRight.taken {m : List Char × Json} {r : List Char}
    (h : MemberRight d round range cs m r) : Taken cs r := by
  obtain ⟨ws, cs', ws', cs'', rfl, -, hchars, -, -, htaken, -⟩ := h
  have hvalue : Taken (ws' ++ ':' :: cs'') r := (htaken.cons ':').append ws'
  exact (((chars_taken hchars).trans hvalue).cons '"').append ws

theorem itemsRight_last {j : Json} (hws : Spaces ws)
    (h : ReadsRight d round range cs j (ws ++ ']' :: rest)) : ItemsRight d round range cs [j] rest := by
  have hlt := h.1.length_lt
  simp only [List.length_append, List.length_cons] at hlt
  refine ⟨h.1.trans (taken_mark ws ']' rest), fun {n} skip e hskip hn => ?_⟩
  obtain ⟨m, rfl⟩ : ∃ m, n = m + 1 := ⟨n - 1, by omega⟩
  rw [List.length_append] at hn
  obtain ⟨hnum, hout, herr⟩ | ⟨js, hnum, hjs, hrun⟩ := items_next h
    (delimited_mark (by simp) hws rest) hskip
    (by rw [List.length_append]; omega : 2 * (skip ++ cs).length + 1 ≤ m) e
  · exact .inl ⟨⟨j, List.mem_cons_self, hnum⟩, hout, herr⟩
  · rw [hrun]
    refine .inr ⟨[js], ?_, by simpa using hnum, .cons hjs .nil⟩
    cases ws with
    | nil =>
      rw [List.nil_append, encode_ascii (by decide), List.headD_cons, if_pos rfl, List.tail_cons]
    | cons c ws =>
      rw [if_neg (head_skipped (skipped_spaces hws) (List.cons_ne_nil c ws) _),
        items_end (skipped_spaces hws) (by omega)]
      rfl

theorem ItemsRight.more {j : Json} {js : List Json} {cs' : List Char} (hws : Spaces ws)
    (h : ReadsRight d round range cs j (ws ++ ',' :: cs'))
    (hrest : ItemsRight d round range cs' js rest) : ItemsRight d round range cs (j :: js) rest := by
  have hlt := h.1.length_lt
  simp only [List.length_append, List.length_cons] at hlt
  refine ⟨h.1.trans ((hrest.1.cons ',').append ws), fun {n} skip e hskip hn => ?_⟩
  obtain ⟨m, rfl⟩ : ∃ m, n = m + 1 := ⟨n - 1, by omega⟩
  rw [List.length_append] at hn
  obtain ⟨hnum, hout, herr⟩ | ⟨node, hnum, hnode, hrun⟩ := items_next h
    (delimited_mark (.inl rfl) hws cs') hskip
    (by rw [List.length_append]; omega : 2 * (skip ++ cs).length + 1 ≤ m) e
  · exact .inl ⟨⟨j, List.mem_cons_self, hnum⟩, hout, herr⟩
  · have hsplit : ws ++ ',' :: cs' = (ws ++ [',']) ++ cs' := by simp
    have hchild := @hrest.2 m (ws ++ [',']) e (skipped_comma hws)
      (by simp only [List.length_append, List.length_singleton]; omega)
    rw [hrun, hsplit, if_neg (head_skipped (skipped_comma hws) (by simp) cs')]
    refine hchild.map (node :: ·) ?_ (.mark (not_numberChar_of_mem (by simp)) h.1) ?_
      fun child h => .cons hnode h
    · rintro ⟨i, hi, h⟩
      exact ⟨i, List.mem_cons_of_mem j hi, h⟩
    · intro hnone he
      simpa using ⟨hnum he, by simpa using hnone he⟩

theorem membersRight_last {m : List Char × Json} (hws : Spaces ws)
    (h : MemberRight d round range cs m (ws ++ '}' :: rest)) : MembersRight d round range cs [m] rest := by
  have hlt := h.taken.length_lt
  simp only [List.length_append, List.length_cons] at hlt
  refine ⟨h.taken.trans (taken_mark ws '}' rest), fun {n} skip e hskip hn => ?_⟩
  obtain ⟨k, rfl⟩ : ∃ k, n = k + 1 := ⟨n - 1, by omega⟩
  rw [List.length_append] at hn
  obtain ⟨hnum, hout, herr⟩ | ⟨js, hnum, hjs, hrun⟩ := members_next h
    (delimited_mark (by simp) hws rest) hskip
    (by rw [List.length_append]; omega : 2 * (skip ++ cs).length + 1 ≤ k) e
  · exact .inl ⟨⟨m, List.mem_cons_self, hnum⟩, hout, herr⟩
  · rw [hrun, members_end (skipped_spaces hws) (by omega)]
    exact .inr ⟨[js], rfl, by simpa using hnum, .cons hjs .nil⟩

theorem MembersRight.more {m : List Char × Json} {ms : List (List Char × Json)} {cs' : List Char}
    (hws : Spaces ws) (h : MemberRight d round range cs m (ws ++ ',' :: cs'))
    (hrest : MembersRight d round range cs' ms rest) : MembersRight d round range cs (m :: ms) rest := by
  have hlt := h.taken.length_lt
  simp only [List.length_append, List.length_cons] at hlt
  refine ⟨h.taken.trans ((hrest.1.cons ',').append ws), fun {n} skip e hskip hn => ?_⟩
  obtain ⟨k, rfl⟩ : ∃ k, n = k + 1 := ⟨n - 1, by omega⟩
  rw [List.length_append] at hn
  obtain ⟨hnum, hout, herr⟩ | ⟨node, hnum, hnode, hrun⟩ := members_next h
    (delimited_mark (.inl rfl) hws cs') hskip
    (by rw [List.length_append]; omega : 2 * (skip ++ cs).length + 1 ≤ k) e
  · exact .inl ⟨⟨m, List.mem_cons_self, hnum⟩, hout, herr⟩
  · have hsplit : ws ++ ',' :: cs' = (ws ++ [',']) ++ cs' := by simp
    have hchild := @hrest.2 k (ws ++ [',']) e (skipped_comma hws)
      (by simp only [List.length_append, List.length_singleton]; omega)
    rw [hrun, hsplit]
    refine hchild.map (node :: ·) ?_ (.mark (not_numberChar_of_mem (by simp)) h.taken) ?_
      fun child h => .cons hnode h
    · rintro ⟨i, hi, h⟩
      exact ⟨i, List.mem_cons_of_mem m hi, h⟩
    · intro hnone he
      simpa using ⟨hnum he, by simpa using hnone he⟩

end Lists

/-- By induction on how the text is read. -/
theorem reads_right {range : ℚ → Prop} (hd : Rounds d round range) {cs rest : List Char} {j : Json} (h : Reads cs j rest) :
    ReadsRight d round range cs j rest := by
  refine @Reads.rec (fun cs j rest _ => ReadsRight d round range cs j rest)
    (fun cs m rest _ => MemberRight d round range cs m rest)
    (fun cs js rest _ => ItemsRight d round range cs js rest)
    (fun cs ms rest _ => MembersRight d round range cs ms rest)
    ?_ ?_ ?_ ?_ ?_ ?_ ?_ ?_ ?_ ?_ ?_ ?_ ?_ ?_ ?_ cs j rest h
  · exact fun hc _ ih => ih.space hc
  · exact fun {rest} => readsRight_word (w := "null") rfl (by simp) (forall_mem_of_all (by decide))
      (fun n key cs e => rfl) (by rintro ⟨⟩) (fun key => .null) rest
  · exact fun {rest} => readsRight_word (w := "false") rfl (by simp) (forall_mem_of_all (by decide))
      (fun n key cs e => rfl) (by rintro ⟨⟩) (fun key => .bool false) rest
  · exact fun {rest} => readsRight_word (w := "true") rfl (by simp) (forall_mem_of_all (by decide))
      (fun n key cs e => rfl) (by rintro ⟨⟩) (fun key => .bool true) rest
  · rintro cs ds rest x rfl hds
    exact readsRight_number hd hds rest
  · exact fun hchars => readsRight_string hchars
  · exact fun hcs hws => readsRight_emptyArray hws hcs
  · exact fun _ ih => ih.array
  · exact fun hcs hws => readsRight_emptyObject hws hcs
  · exact fun _ ih => ih.object
  · exact fun hcs hws hchars hws' hreads ih => ⟨_, _, _, _, hcs, hws, hchars, hws', hreads, ih⟩
  · exact fun hws _ ih => itemsRight_last hws ih
  · exact fun hws _ _ ih ihs => ihs.more hws ih
  · exact fun hws _ ih => membersRight_last hws ih
  · exact fun hws _ _ ih ihs => ihs.more hws ih

end EdgeNode.Nxjson
