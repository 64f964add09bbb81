import EdgeNode.Nxjson.Values
import EdgeNode.Nxjson.Complete

/-! What the parser makes of a text of JSON in a buffer. -/

namespace EdgeNode.Nxjson

open JsonText Utf8

section Nul

/-- What is taken of a text has no NUL. -/
def NoNul (cs rest : List Char) : Prop := '\x00' ∈ cs → '\x00' ∈ rest

theorem noNul_append {ds : List Char} (h : '\x00' ∉ ds) (rest : List Char) : NoNul (ds ++ rest) rest :=
  fun hm => (List.mem_append.mp hm).resolve_left h

theorem NoNul.cons {c : Char} {cs rest : List Char} (hc : c ≠ '\x00') (h : NoNul cs rest) :
    NoNul (c :: cs) rest := by
  intro hm
  exact h ((List.mem_cons.mp hm).resolve_left hc.symm)

theorem NoNul.trans {cs ds rest : List Char} (h : NoNul cs ds) (h' : NoNul ds rest) : NoNul cs rest :=
  fun hm => h' (h hm)

theorem spaces_noNul {ws : List Char} (h : Spaces ws) : '\x00' ∉ ws := by
  intro hm
  exact absurd (h _ hm) (by simp [JsonText.isSpace])

/-- What is taken up to and with a mark. -/
theorem noNul_mark {c : Char} {ws rest : List Char} (hws : Spaces ws) (hc : c ≠ '\x00') :
    NoNul (ws ++ c :: rest) rest :=
  (noNul_append (spaces_noNul hws) _).trans (NoNul.cons hc id)

theorem escape_noNul {e : List Char} {c : Char} (h : Escape e c) : '\x00' ∉ e := by
  have hhex : ∀ hs n, Hex4 hs n → '\x00' ∉ hs := by
    intro hs n hh hm
    exact absurd (hh.2.1 _ hm) (by decide)
  cases h with
  | quote => decide
  | @short e c hm =>
    have hall : ∀ p ∈ [('\\', '\\'), ('/', '/'), ('b', '\x08'), ('f', '\x0c'), ('n', '\n'),
        ('r', '\r'), ('t', '\t')], p.1 ≠ '\x00' := forall_mem_of_all (by decide)
    simpa using (hall (e, c) hm).symm
  | unit hh => simpa using hhex _ _ hh
  | pair hh hl => simpa using ⟨hhex _ _ hh, hhex _ _ hl⟩

theorem chars_noNul {cs s rest : List Char} (h : Chars cs s rest) : NoNul cs rest := by
  induction h with
  | close => exact NoNul.cons (by decide) id
  | @char c cs s rest h32 _ _ _ ih =>
    refine ih.cons ?_
    rintro rfl
    exact absurd h32 (by decide)
  | escape ht he _ ih =>
    subst ht
    exact ((noNul_append (escape_noNul he) _).trans ih).cons (by decide)

theorem reads_noNul {cs rest : List Char} {j : Json} (h : Reads cs j rest) : NoNul cs rest := by
  refine @Reads.rec (fun cs _ rest _ => NoNul cs rest) (fun cs _ rest _ => NoNul cs rest)
    (fun cs _ rest _ => NoNul cs rest) (fun cs _ rest _ => NoNul cs rest)
    ?_ ?_ ?_ ?_ ?_ ?_ ?_ ?_ ?_ ?_ ?_ ?_ ?_ ?_ ?_ cs j rest h
  · rintro c cs rest j hc - ih
    refine ih.cons ?_
    rintro rfl
    exact absurd hc (by simp [JsonText.isSpace])
  · exact fun {rest} => @noNul_append ['n', 'u', 'l', 'l'] (by decide) rest
  · exact fun {rest} => @noNul_append ['f', 'a', 'l', 's', 'e'] (by decide) rest
  · exact fun {rest} => @noNul_append ['t', 'r', 'u', 'e'] (by decide) rest
  · rintro cs ds rest x rfl hds
    refine noNul_append (fun hm => ?_) rest
    exact absurd (hds.chars _ hm) (by simp [isNumberChar])
  · exact fun hchars => (chars_noNul hchars).cons (by decide)
  · rintro cs ws rest rfl hws
    exact (noNul_mark hws (by decide)).cons (by decide)
  · exact fun _ ih => ih.cons (by decide)
  · rintro cs ws rest rfl hws
    exact (noNul_mark hws (by decide)).cons (by decide)
  · exact fun _ ih => ih.cons (by decide)
  · rintro cs ws cs' ws' cs'' s rest j rfl hws hchars hws' - ih
    exact (((noNul_mark hws (by decide)).trans (chars_noNul hchars)).trans
      (noNul_mark hws' (by decide))).trans ih
  · exact fun hws _ ih => ih.trans (noNul_mark hws (by decide))
  · exact fun hws _ _ ih ihs => (ih.trans (noNul_mark hws (by decide))).trans ihs
  · exact fun hws _ ih => ih.trans (noNul_mark hws (by decide))
  · exact fun hws _ _ ih ihs => (ih.trans (noNul_mark hws (by decide))).trans ihs

theorem encode_noNul {cs : List Char} (h : '\x00' ∉ cs) : 0 ∉ encode cs := by
  intro hm
  obtain ⟨c, hc, hb⟩ := List.mem_flatMap.mp hm
  by_cases hascii : c.toNat < 128
  · rw [encodeChar_ascii hascii, List.mem_singleton] at hb
    have hnat := congrArg UInt8.toNat hb
    rw [Reader.toNat_toUInt8 hascii] at hnat
    have hzero : c = '\x00' := Char.toNat_inj.mp hnat.symm
    exact h (hzero ▸ hc)
  · exact absurd (encodeChar_ge (Nat.le_of_not_lt hascii) 0 hb) (by decide)

end Nul

section Parse

variable {δ : Type} {d : Doubles δ} {round : ℚ → δ} {range : ℚ → Prop}

/-- A text of JSON in UTF-8 between other bytes, with `errno` as it was left before. -/
theorem parse_denotes (hd : Rounds d round range) {cs : List Char} {j : Json} (h : Denotes cs j)
    (pre T : List UInt8) (e : Bool) :
    ∃ js mess e', parse d true ⟨pre ++ (encode cs ++ 0 :: T), e⟩ pre.length =
        some (js, ⟨pre ++ (mess ++ 0 :: T), e'⟩) ∧ mess.length = (encode cs).length ∧
      ((HasNumber j ∧ (e = true ∨ OutOfRange range cs) ∧ js = none ∧ e' = true) ∨
        ((e = true → ¬ HasNumber j) ∧ e' = e ∧ ∃ node tree, js = some node ∧
          Means d round none tree j ∧
          node.map (CString.textAt (pre ++ (mess ++ 0 :: T))) = tree.map cString)) := by
  obtain ⟨rest, hreads, hrest⟩ := h
  have hdel : Delimited rest := by
    have hnil : Delimited [] := by simp [Delimited]
    have hend := delimited_spaces hrest hnil
    rwa [List.append_nil] at hend
  have hnul : '\x00' ∉ cs := fun hm => spaces_noNul hrest (reads_noNul hreads hm)
  obtain ⟨js, js', mess, e', hparse, hlen, hread, htexts⟩ :=
    parse_reads d true (encode_noNul hnul) pre T e
  have hn : 2 * cs.length + 1 ≤ 2 * (pre ++ (encode cs ++ 0 :: T)).length + 2 := by
    have hle := length_le_encode cs
    simp only [List.length_append]
    omega
  refine ⟨js, mess, e', hparse, hlen, ?_⟩
  rw [Reader.parse] at hread
  obtain ⟨hnum, hout, hv⟩ | ⟨_, hv, hnum, tree, rfl, hmeans⟩ :=
    (reads_right hd hreads).2 hdel none e hn
  · rw [hv] at hread
    obtain ⟨rfl, rfl⟩ := Prod.mk.inj (Option.some.inj hread)
    exact .inl ⟨hnum, hout, Option.map_eq_none_iff.mp htexts, rfl⟩
  · rw [hv] at hread
    obtain ⟨rfl, rfl⟩ := Prod.mk.inj (Option.some.inj hread)
    obtain ⟨node, rfl, hnode⟩ := Option.map_eq_some_iff.mp htexts
    exact .inr ⟨hnum, rfl, node, tree, rfl, hmeans, hnode⟩

/-- The tree is what is read of the text alone, wherever the text stands, and its keys and strings are
found in the buffer behind. -/
theorem parse_anywhere (d : Doubles δ) (encoder : Bool) {t : List UInt8} (ht : 0 ∉ t) (e : Bool) :
    ∃ (r : Option (Node δ (List UInt8))) (e' : Bool),
      Reader.parse d encoder (2 * t.length + 4) t e = some (r, e') ∧
        ∀ pre T, ∃ js mess, parse d encoder ⟨pre ++ (t ++ 0 :: T), e⟩ pre.length =
            some (js, ⟨pre ++ (mess ++ 0 :: T), e'⟩) ∧ mess.length = t.length ∧
          js.map (Node.map (CString.textAt (pre ++ (mess ++ 0 :: T)))) = r.map (Node.map cString) := by
  obtain ⟨js, js', mess, e', -, -, hread, -⟩ := parse_reads d encoder ht [] [] e
  have hfuel : 2 * ([] ++ (t ++ 0 :: [])).length + 2 = 2 * t.length + 4 := by
    simp only [List.length_append, List.length_cons, List.length_nil]
    omega
  rw [hfuel] at hread
  refine ⟨js', e', hread, fun pre T => ?_⟩
  obtain ⟨js, js'', mess, e'', hparse, hlen, hread', htexts⟩ := parse_reads d encoder ht pre T e
  have hle : 2 * t.length + 4 ≤ 2 * (pre ++ (t ++ 0 :: T)).length + 2 := by
    simp only [List.length_append, List.length_cons]
    omega
  rw [Reader.parse_more hle hread] at hread'
  obtain ⟨rfl, rfl⟩ := Prod.mk.inj (Option.some.inj hread')
  exact ⟨js, mess, hparse, hlen, htexts⟩

theorem parse_anywhere_escape : 0 ∉ [0x22, 0x5c, 0x6e, (0x22 : UInt8)] ∧
    ∃ (r : Option (Node ℚ (List UInt8))) (e' : Bool),
      Reader.parse exact true 12 [0x22, 0x5c, 0x6e, 0x22] false = some (r, e') ∧
        ∀ pre T, ∃ js mess, parse exact true ⟨pre ++ ([0x22, 0x5c, 0x6e, 0x22] ++ 0 :: T), false⟩
            pre.length = some (js, ⟨pre ++ (mess ++ 0 :: T), e'⟩) ∧ mess.length = 4 ∧
          js.map (Node.map (CString.textAt (pre ++ (mess ++ 0 :: T)))) = r.map (Node.map cString) :=
  ⟨by decide, parse_anywhere exact true (t := [0x22, 0x5c, 0x6e, 0x22]) (by decide) false⟩

/-- An object with an array and another object, and an escape in a key and in a string. -/
def nested : List Char :=
  ['\x7b', '"', 'a', '\\', 'n', '"', ':', '[', '1', ',', '\x7b', '"', 'b', '"', ':', '"', '\\', 'u',
    '0', '0', '4', '1', '"', '\x7d', ']', '\x7d']

def nestedValue : Json :=
  .object [(['a', '\n'], .array [.number 1, .object [(['b'], .string ['A'])]])]

theorem denotes_nested : Denotes nested nestedValue := by
  have hone : NumberText ['1'] 1 := numberText_decimal 1
  have hunit : Hex4 ['0', '0', '4', '1'] 65 := ⟨rfl, forall_mem_of_all (by decide), by decide⟩
  have hletter : Chars ['\\', 'u', '0', '0', '4', '1', '"', '\x7d', ']', '\x7d'] ['A'] ['\x7d', ']', '\x7d'] :=
    .escape (e := ['u', '0', '0', '4', '1']) rfl (.unit hunit) .close
  have hb : Items ReadsMember '\x7d' _ _ [']', '\x7d'] := .last spaces_nil
    (readsMember_chars (chars_plain (s := ['b']) (by decide) _) (.string hletter))
  have hitems : Items Reads ']' _ [.number 1, .object [(['b'], .string ['A'])]] ['\x7d'] :=
    .more spaces_nil (.number (show _ = ['1'] ++ ([] ++ ',' :: _) from rfl) hone)
      (.last spaces_nil (.object hb))
  have hkey : ∀ rest, Chars ('a' :: '\\' :: 'n' :: '"' :: rest) ['a', '\n'] rest := fun rest =>
    .char (by decide) (by decide) (by decide)
      (.escape (e := ['n']) rfl (.short (by decide)) .close)
  have ha : Items ReadsMember '\x7d' _ _ [] :=
    .last spaces_nil (readsMember_chars (hkey _) (.array hitems))
  exact ⟨[], .object ha, spaces_nil⟩

theorem parse_json (hd : Rounds d round range) {cs : List Char} {j : Json} (h : Denotes cs j)
    (pre T : List UInt8) :
    ∃ js mess e', parse d true ⟨pre ++ (encode cs ++ 0 :: T), false⟩ pre.length =
        some (js, ⟨pre ++ (mess ++ 0 :: T), e'⟩) ∧
      ((OutOfRange range cs ∧ js = none ∧ e' = true) ∨ (e' = false ∧
        ∃ node tree, js = some node ∧ Means d round none tree j ∧
          node.map (CString.textAt (pre ++ (mess ++ 0 :: T))) = tree.map cString)) := by
  obtain ⟨js, mess, e', hparse, -, ⟨-, hout, hr⟩ | ⟨-, hr⟩⟩ := parse_denotes hd h pre T false
  · exact ⟨js, mess, e', hparse, .inl ⟨hout.resolve_left Bool.false_ne_true, hr⟩⟩
  · exact ⟨js, mess, e', hparse, .inr hr⟩

theorem parse_json_nested : Denotes nested nestedValue ∧
    ∃ js mess e', parse exact true ⟨[] ++ (encode nested ++ 0 :: []), false⟩ 0 =
        some (js, ⟨[] ++ (mess ++ 0 :: []), e'⟩) ∧
      ((OutOfRange (fun _ => True) nested ∧ js = none ∧ e' = true) ∨ (e' = false ∧
        ∃ node tree, js = some node ∧ Means exact id none tree nestedValue ∧
          node.map (CString.textAt ([] ++ (mess ++ 0 :: []))) = tree.map cString)) :=
  ⟨denotes_nested, parse_json exact_rounds denotes_nested [] []⟩

/-- Once a number has been out of range, no text with a number is read any more, and texts without one
are. -/
theorem parse_sticky (hd : Rounds d round range) {cs : List Char} {j : Json} (h : Denotes cs j)
    (pre T : List UInt8) :
    ∃ js m, parse d true ⟨pre ++ (encode cs ++ 0 :: T), true⟩ pre.length = some (js, m) ∧
      m.erange = true ∧ (js = none ↔ HasNumber j) := by
  obtain ⟨js, mess, e', hparse, -, ⟨hnum, -, rfl, rfl⟩ | ⟨hnum, rfl, node, tree, rfl, -⟩⟩ :=
    parse_denotes hd h pre T true
  · exact ⟨none, _, hparse, rfl, iff_of_true rfl hnum⟩
  · exact ⟨some node, _, hparse, rfl, iff_of_false (by simp) (hnum rfl)⟩

theorem parse_sticky_nested : Denotes nested nestedValue ∧
    ∃ js m, parse exact true ⟨[] ++ (encode nested ++ 0 :: []), true⟩ 0 = some (js, m) ∧
      m.erange = true ∧ (js = none ↔ HasNumber nestedValue) :=
  ⟨denotes_nested, parse_sticky exact_rounds denotes_nested [] []⟩

end Parse

section Sticky

/-- What a value is that is read without a number. -/
inductive Numberless {δ τ : Type} : Value δ τ → Prop
  | null : Numberless .null
  | object : Numberless .object
  | array : Numberless .array
  | string (s : τ) : Numberless (.string s)
  | false : Numberless (.bool 0)
  | true : Numberless (.bool 1)

/-- Trees without a number. -/
inductive NoNumbers {δ τ : Type} : Node δ τ → Prop
  | mk {key : Option τ} {type : Value δ τ} {child : List (Node δ τ)} (htype : Numberless type)
      (hchild : ∀ js ∈ child, NoNumbers js) : NoNumbers (.mk key type child)

variable {δ : Type} {d : Doubles δ} {encoder : Bool}

theorem mapChild_eq {τ τ' : Type} (f : τ → τ') (child : List (Node δ τ)) :
    mapChild f child = child.map (Node.map f) := by
  induction child with
  | nil => rfl
  | cons js child ih => rw [mapChild, ih, List.map_cons]

theorem NoNumbers.map {τ τ' : Type} (f : τ → τ') {js : Node δ τ} (h : NoNumbers js) :
    NoNumbers (js.map f) := by
  induction h with
  | @mk key type child htype _ ih =>
    rw [Node.map, mapChild_eq]
    refine .mk ?_ ?_
    · cases htype with
      | null => exact .null
      | object => exact .object
      | array => exact .array
      | string s => exact .string (f s)
      | false => exact .false
      | true => exact .true
    · intro js hjs
      obtain ⟨js, hmem, rfl⟩ := List.mem_map.mp hjs
      exact ih js hmem

/-- What is read in `n` turns with `ERANGE` there. -/
def Sticks (d : Doubles δ) (encoder : Bool) (n : Nat) : Prop :=
  (∀ k t r e, Reader.value d encoder n k t true = some (r, e) →
    e = true ∧ ∀ js rest, r = some (some js, rest) → NoNumbers js) ∧
  (∀ t r e, Reader.members d encoder n t true = some (r, e) →
    e = true ∧ ∀ child rest, r = some (child, rest) → ∀ js ∈ child, NoNumbers js) ∧
  ∀ t r e, Reader.items d encoder n t true = some (r, e) →
    e = true ∧ ∀ child rest, r = some (child, rest) → ∀ js ∈ child, NoNumbers js

theorem noNumbers_leaf {key : Option (List UInt8)} {type : Value δ (List UInt8)}
    (h : Numberless type) : NoNumbers (.mk key type []) := .mk h (by simp)

theorem noNumbers_word {w : String} {v : Value δ (List UInt8)} {k : Option (List UInt8)}
    {t rest : List UInt8} {js : Node δ (List UInt8)} (hv : Numberless v)
    (h : Reader.word w v k t = some (some js, rest)) : NoNumbers js := by
  unfold Reader.word at h
  dsimp only at h
  split at h
  · cases h
    exact noNumbers_leaf hv
  · cases h

/-- The node that was read, before those that are read behind it. -/
theorem noNumbers_append {js : Option (Node δ (List UInt8))} {child : List (Node δ (List UInt8))}
    (hjs : ∀ i, js = some i → NoNumbers i) (hchild : ∀ i ∈ child, NoNumbers i) :
    ∀ i ∈ js.toList ++ child, NoNumbers i := by
  intro i hi
  obtain hi | hi := List.mem_append.mp hi
  · exact hjs i (Option.mem_toList.mp hi)
  · exact hchild i hi

theorem Sticks.value {n : Nat} (h : Sticks d encoder n) {k : Option (List UInt8)} {t : List UInt8}
    {r : Option (Option (Node δ (List UInt8)) × List UInt8)} {e : Bool}
    (hr : Reader.value d encoder (n + 1) k t true = some (r, e)) :
    e = true ∧ ∀ js rest, r = some (some js, rest) → NoNumbers js := by
  obtain ⟨hv, hm, hi⟩ := h
  cases t with
  | nil =>
    cases hr
    exact ⟨rfl, by simp⟩
  | cons c t =>
    rw [Reader.value] at hr
    split_ifs at hr with hspace hopen hopen' hclose hquote hnumber htrue hfalse hnull hslash
    · exact hv k t r e hr
    · obtain ⟨⟨ro, e'⟩, hx, hr⟩ := Option.map_eq_some_iff.mp hr
      obtain ⟨rfl, rfl⟩ := Prod.mk.inj hr
      obtain ⟨he, hchild⟩ := hm t ro e' hx
      refine ⟨he, fun js rest hjs => ?_⟩
      obtain ⟨⟨child, rest'⟩, rfl, hjs⟩ := Option.map_eq_some_iff.mp hjs
      cases hjs
      exact .mk .object (hchild child rest' rfl)
    · obtain ⟨⟨ro, e'⟩, hx, hr⟩ := Option.map_eq_some_iff.mp hr
      obtain ⟨rfl, rfl⟩ := Prod.mk.inj hr
      obtain ⟨he, hchild⟩ := hi t ro e' hx
      refine ⟨he, fun js rest hjs => ?_⟩
      obtain ⟨⟨child, rest'⟩, rfl, hjs⟩ := Option.map_eq_some_iff.mp hjs
      cases hjs
      exact .mk .array (hchild child rest' rfl)
    · cases hr
      exact ⟨rfl, by simp⟩
    · cases hr
      refine ⟨rfl, fun js rest hjs => ?_⟩
      obtain ⟨⟨s, rest'⟩, -, hjs⟩ := Option.map_eq_some_iff.mp hjs
      cases hjs
      exact noNumbers_leaf (.string s)
    · rw [number_sticky] at hr
      cases hr
      exact ⟨rfl, by simp⟩
    · cases hr
      exact ⟨rfl, fun js rest hjs => noNumbers_word .true hjs⟩
    · cases hr
      exact ⟨rfl, fun js rest hjs => noNumbers_word .false hjs⟩
    · cases hr
      exact ⟨rfl, fun js rest hjs => noNumbers_word .null hjs⟩
    · cases hs : Reader.skipComment t with
      | none =>
        rw [hs] at hr
        cases hr
        exact ⟨rfl, by simp⟩
      | some rest =>
        rw [hs] at hr
        exact hv k rest r e hr
    · cases hr
      exact ⟨rfl, by simp⟩

theorem sticks (n : Nat) : Sticks d encoder n := by
  induction n with
  | zero =>
    refine ⟨?_, ?_, ?_⟩
    · rintro k t r e ⟨⟩
    · rintro t r e ⟨⟩
    · rintro t r e ⟨⟩
  | succ n ih =>
    obtain ⟨hv, hm, hi⟩ := ih
    refine ⟨fun k t r e => Sticks.value ⟨hv, hm, hi⟩, ?_, ?_⟩
    · intro t r e hr
      rw [Reader.members, Option.bind_eq_bind, Option.bind_eq_some_iff] at hr
      obtain ⟨_ | ⟨newKey, t'⟩, -, hr⟩ := hr
      · cases hr
        exact ⟨rfl, by simp⟩
      · dsimp only at hr
        split_ifs at hr
        · cases hr
          exact ⟨rfl, by simp⟩
        · obtain ⟨⟨ro, e'⟩, hx, hr⟩ := Option.bind_eq_some_iff.mp hr
          obtain ⟨rfl, hjs⟩ := hv newKey t' ro e' hx
          cases ro with
          | none =>
            cases hr
            exact ⟨rfl, by simp⟩
          | some x =>
            obtain ⟨⟨ro, e''⟩, hx, hr⟩ := Option.map_eq_some_iff.mp hr
            obtain ⟨rfl, hchild⟩ := hm x.2 ro e'' hx
            obtain ⟨rfl, rfl⟩ := Prod.mk.inj hr
            refine ⟨rfl, fun child rest hc => ?_⟩
            obtain ⟨⟨child', rest'⟩, rfl, hc⟩ := Option.map_eq_some_iff.mp hc
            cases hc
            exact noNumbers_append (fun i hi => hjs i x.2 (by rw [← hi])) (hchild child' rest' rfl)
    · intro t r e hr
      rw [Reader.items, Option.bind_eq_bind, Option.bind_eq_some_iff] at hr
      obtain ⟨⟨ro, e'⟩, hx, hr⟩ := hr
      obtain ⟨rfl, hjs⟩ := hv none t ro e' hx
      cases ro with
      | none =>
        cases hr
        exact ⟨rfl, by simp⟩
      | some x =>
        dsimp only at hr
        split_ifs at hr
        · cases hr
          refine ⟨rfl, fun child rest hc => ?_⟩
          cases hc
          have hnil : ∀ i ∈ ([] : List (Node δ (List UInt8))), NoNumbers i := by simp
          simpa using noNumbers_append (fun i hi => hjs i x.2 (by rw [← hi])) hnil
        · obtain ⟨⟨ro, e''⟩, hx, hr⟩ := Option.map_eq_some_iff.mp hr
          obtain ⟨rfl, hchild⟩ := hi x.2 ro e'' hx
          obtain ⟨rfl, rfl⟩ := Prod.mk.inj hr
          refine ⟨rfl, fun child rest hc => ?_⟩
          obtain ⟨⟨child', rest'⟩, rfl, hc⟩ := Option.map_eq_some_iff.mp hc
          cases hc
          exact noNumbers_append (fun i hi => hjs i x.2 (by rw [← hi])) (hchild child' rest' rfl)

/-- Whatever is read with `ERANGE` there has no number, and `ERANGE` stays. -/
theorem parse_noNumbers (d : Doubles δ) (encoder : Bool) (buf : List UInt8) (h : 0 ∈ buf) :
    ∃ js m, parse d encoder ⟨buf, true⟩ 0 = some (js, m) ∧ m.erange = true ∧
      ∀ node, js = some node → NoNumbers (node.map (CString.textAt m.buf)) := by
  obtain ⟨t, T, rfl, ht⟩ := List.eq_append_cons_of_mem h
  obtain ⟨js, js', mess, e', hparse, -, hread, htexts⟩ := parse_reads d encoder ht [] T true
  obtain ⟨⟨r, e⟩, hr, hrun⟩ := Option.map_eq_some_iff.mp hread
  obtain ⟨rfl, hnone⟩ := (sticks _).1 none t r e hr
  obtain ⟨rfl, rfl⟩ := Prod.mk.inj hrun
  refine ⟨js, _, hparse, rfl, fun node hnode => ?_⟩
  rw [hnode, Option.map_some] at htexts
  obtain ⟨tree, htree, hmap⟩ := Option.map_eq_some_iff.mp htexts.symm
  obtain ⟨⟨_, rest⟩, rfl, rfl⟩ := Option.bind_eq_some_iff.mp htree
  rw [← hmap]
  exact (hnone tree rest rfl).map cString

end Sticky

end EdgeNode.Nxjson
