import EdgeNode.Lib.Numerals

/-! JSON: its values, the texts that denote them, and what of a text a value is read from. -/

namespace JsonText

inductive Json where
  | null
  | bool (b : Bool)
  | number (x : ℚ)
  | string (s : List Char)
  | array (items : List Json)
  | object (members : List (List Char × Json))

section Grammar

def isSpace (c : Char) : Prop := c ∈ [' ', '\t', '\n', '\r']

def Spaces (cs : List Char) : Prop := ∀ c ∈ cs, isSpace c

def Digits (cs : List Char) : Prop := cs ≠ [] ∧ ∀ c ∈ cs, c.isDigit = true

def natural (ds : List Char) : Nat := Nat.ofDigitChars 10 ds 0

inductive Fraction : List Char → ℚ → Prop
  | none : Fraction [] 0
  | some {ds : List Char} : Digits ds → Fraction ('.' :: ds) (natural ds / 10 ^ ds.length)

inductive Exponent : List Char → Int → Prop
  | none : Exponent [] 0
  | some {e : Char} {sign ds : List Char} : e ∈ ['e', 'E'] → sign ∈ [[], ['+']] → Digits ds →
      Exponent (e :: (sign ++ ds)) (natural ds)
  | neg {e : Char} {ds : List Char} : e ∈ ['e', 'E'] → Digits ds →
      Exponent (e :: '-' :: ds) (-natural ds)

/-- Numerals and their numbers. No digit follows a zero at the start. -/
inductive NumberText : List Char → ℚ → Prop
  | mk (neg : Bool) {ds fs es : List Char} {x : ℚ} {e : Int} : Digits ds →
      (ds.head? = some '0' → ds = ['0']) → Fraction fs x → Exponent es e →
        NumberText ((if neg then ['-'] else []) ++ (ds ++ (fs ++ es)))
          ((if neg then -1 else 1) * (natural ds + x) * 10 ^ e)

def Hex4 (hs : List Char) (n : Nat) : Prop :=
  hs.length = 4 ∧ (∀ c ∈ hs, (Numerals.digit 16 c).isSome) ∧ n = (Numerals.scan 16 hs 0).1

/-- What may follow a backslash, and the character that is meant. -/
inductive Escape : List Char → Char → Prop
  | quote : Escape ['"'] '"'
  | short {e c : Char} : (e, c) ∈ [('\\', '\\'), ('/', '/'), ('b', '\x08'), ('f', '\x0c'),
      ('n', '\n'), ('r', '\r'), ('t', '\t')] → Escape [e] c
  | unit {hs : List Char} {c : Char} : Hex4 hs c.toNat → Escape ('u' :: hs) c
  | pair {hs ls : List Char} {h l : Nat} {c : Char} : Hex4 hs h → Hex4 ls l →
      0xD800 ≤ h → h < 0xDC00 → 0xDC00 ≤ l → l < 0xE000 →
        c.toNat = 0x10000 + (h - 0xD800) * 0x400 + (l - 0xDC00) →
          Escape ('u' :: (hs ++ '\\' :: 'u' :: ls)) c

/-- The characters of a string up to its closing quote, and what is behind that. -/
inductive Chars : List Char → List Char → List Char → Prop
  | close {rest : List Char} : Chars ('"' :: rest) [] rest
  | char {c : Char} {cs s rest : List Char} : 32 ≤ c.toNat → c ≠ '"' → c ≠ '\\' →
      Chars cs s rest → Chars (c :: cs) (c :: s) rest
  | escape {e : List Char} {c : Char} {t cs s rest : List Char} : t = e ++ cs → Escape e c →
      Chars cs s rest → Chars ('\\' :: t) (c :: s) rest

/-- Items with commas between them and a bracket behind the last. -/
inductive Items {α : Type} (item : List Char → α → List Char → Prop) (close : Char) :
    List Char → List α → List Char → Prop
  | last {cs ws rest : List Char} {a : α} : Spaces ws → item cs a (ws ++ close :: rest) →
      Items item close cs [a] rest
  | more {cs ws cs' rest : List Char} {a : α} {as : List α} : Spaces ws →
      item cs a (ws ++ ',' :: cs') → Items item close cs' as rest →
        Items item close cs (a :: as) rest

mutual

/-- A text begins with one that denotes a value, and what is behind it. -/
inductive Reads : List Char → Json → List Char → Prop
  | space {c : Char} {cs rest : List Char} {j : Json} : isSpace c → Reads cs j rest →
      Reads (c :: cs) j rest
  | null {rest : List Char} : Reads ('n' :: 'u' :: 'l' :: 'l' :: rest) .null rest
  | false {rest : List Char} : Reads ('f' :: 'a' :: 'l' :: 's' :: 'e' :: rest) (.bool false) rest
  | true {rest : List Char} : Reads ('t' :: 'r' :: 'u' :: 'e' :: rest) (.bool true) rest
  | number {cs ds rest : List Char} {x : ℚ} : cs = ds ++ rest → NumberText ds x →
      Reads cs (.number x) rest
  | string {cs s rest : List Char} : Chars cs s rest → Reads ('"' :: cs) (.string s) rest
  | emptyArray {cs ws rest : List Char} : cs = ws ++ ']' :: rest → Spaces ws →
      Reads ('[' :: cs) (.array []) rest
  | array {cs rest : List Char} {js : List Json} : Items Reads ']' cs js rest →
      Reads ('[' :: cs) (.array js) rest
  | emptyObject {cs ws rest : List Char} : cs = ws ++ '}' :: rest → Spaces ws →
      Reads ('{' :: cs) (.object []) rest
  | object {cs rest : List Char} {ms : List (List Char × Json)} : Items ReadsMember '}' cs ms rest →
      Reads ('{' :: cs) (.object ms) rest

inductive ReadsMember : List Char → List Char × Json → List Char → Prop
  | mk {cs ws cs' ws' cs'' s rest : List Char} {j : Json} : cs = ws ++ '"' :: cs' → Spaces ws →
      Chars cs' s (ws' ++ ':' :: cs'') → Spaces ws' → Reads cs'' j rest →
        ReadsMember cs (s, j) rest

end

def Denotes (cs : List Char) (j : Json) : Prop := ∃ rest, Reads cs j rest ∧ Spaces rest

end Grammar

section Strings

/-- Characters that stand for themselves in a string. -/
def Plain (s : List Char) : Prop := ∀ c ∈ s, 32 ≤ c.toNat ∧ c ≠ '"' ∧ c ≠ '\\'

instance : DecidablePred Plain := fun s => List.decidableBAll _ s

/-- No backslash before the next quote. -/
def Outside (cs : List Char) : Prop := '\\' ∉ cs.takeWhile (· ≠ '"')

theorem chars_plain {s : List Char} (h : Plain s) (rest : List Char) :
    Chars (s ++ '"' :: rest) s rest := by
  induction s with
  | nil => exact Chars.close
  | cons c s ih =>
    obtain ⟨h32, hquote, hslash⟩ := h c List.mem_cons_self
    exact Chars.char h32 hquote hslash (ih fun d hd => h d (List.mem_cons_of_mem c hd))

theorem Escape.eq_quote_or {e : List Char} {c : Char} (h : Escape e c) :
    (e = ['"'] ∧ c = '"') ∨ (e ≠ [] ∧ '"' ∉ e) := by
  have hhex : ∀ hs n, Hex4 hs n → '"' ∉ hs := by
    intro hs n hh hq
    exact absurd (hh.2.1 '"' hq) (by decide)
  cases h with
  | quote => exact Or.inl ⟨rfl, rfl⟩
  | short hm =>
    refine Or.inr ⟨by simp, ?_⟩
    intro hq
    rw [List.mem_singleton] at hq
    subst hq
    simp at hm
  | unit hh =>
    refine Or.inr ⟨by simp, ?_⟩
    simpa using hhex _ _ hh
  | pair hh hl =>
    refine Or.inr ⟨by simp, ?_⟩
    simpa using ⟨hhex _ _ hh, hhex _ _ hl⟩

/-- Reading a string that was closed by a quote: it falls short of what was written, or is it, or
reads over the quote behind a backslash. -/
theorem Chars.cases_quote {u t rest w r : List Char} (h : Chars t w r) (ht : t = u ++ '"' :: rest) :
    w.length < u.length ∨ (Plain u ∧ w = u ∧ r = rest) ∨
      ∃ x w1 w2, u = x ++ ['\\'] ∧ w = w1 ++ '"' :: w2 ∧ Chars rest w2 r := by
  induction h generalizing u with
  | close =>
    cases u with
    | nil =>
      rw [List.nil_append, List.cons.injEq] at ht
      exact Or.inr (Or.inl ⟨by simp [Plain], rfl, ht.2⟩)
    | cons c u => exact Or.inl (by simp)
  | @char c cs s r h32 hquote hslash _ ih =>
    cases u with
    | nil => exact absurd (List.cons.inj ht).1 hquote
    | cons d u =>
      rw [List.cons_append, List.cons.injEq] at ht
      obtain ⟨rfl, ht⟩ := ht
      obtain hlt | ⟨hp, rfl, rfl⟩ | ⟨x, w1, w2, rfl, rfl, hr⟩ := ih ht
      · exact Or.inl (by simpa using hlt)
      · refine Or.inr (Or.inl ⟨?_, rfl, rfl⟩)
        intro d hd
        obtain rfl | hd := List.mem_cons.mp hd
        · exact ⟨h32, hquote, hslash⟩
        · exact hp d hd
      · exact Or.inr (Or.inr ⟨c :: x, c :: w1, w2, rfl, rfl, hr⟩)
  | @escape e c t cs s r htt he hr ih =>
    cases u with
    | nil => exact absurd (List.cons.inj ht).1 (by decide)
    | cons d u =>
      rw [List.cons_append, List.cons.injEq, htt] at ht
      obtain ⟨rfl, ht⟩ := ht
      have hpos : 0 < e.length := by
        obtain ⟨rfl, -⟩ | ⟨hne, -⟩ := he.eq_quote_or
        · simp
        · exact List.length_pos_of_ne_nil hne
      obtain ⟨a, hu, hcs⟩ | ⟨a, he', hcs⟩ := List.append_eq_append_iff.mp ht
      · obtain hlt | ⟨-, rfl, -⟩ | ⟨x, w1, w2, hx, rfl, hw⟩ := ih hcs
        · refine Or.inl ?_
          simp only [hu, List.length_cons, List.length_append]
          omega
        · refine Or.inl ?_
          simp only [hu, List.length_cons, List.length_append]
          omega
        · exact Or.inr (Or.inr ⟨'\\' :: (e ++ x), c :: w1, w2, by simp [hu, hx], rfl, hw⟩)
      · cases a with
        | nil =>
          rw [List.append_nil] at he'
          subst he'
          obtain hlt | ⟨-, rfl, -⟩ | ⟨x, w1, w2, hx, -, -⟩ := @ih [] hcs.symm
          · simp at hlt
          · refine Or.inl ?_
            simp only [List.length_cons, List.length_nil]
            omega
          · simp at hx
        | cons q a =>
          obtain ⟨rfl, rfl⟩ := List.cons.inj hcs
          obtain ⟨rfl, rfl⟩ | ⟨-, hq⟩ := he.eq_quote_or
          · have hnil : u = [] ∧ a = [] := by
              have hlen := congrArg List.length he'
              simp only [List.length_cons, List.length_nil, List.length_append] at hlen
              exact ⟨List.length_eq_zero_iff.mp (by omega), List.length_eq_zero_iff.mp (by omega)⟩
            obtain ⟨rfl, rfl⟩ := hnil
            exact Or.inr (Or.inr ⟨[], [], s, rfl, rfl, hr⟩)
          · exact absurd (by simp [he']) hq

theorem Chars.no_slash {cs w r : List Char} (h : Chars cs w r) (ho : Outside cs) : '\\' ∉ w := by
  induction h with
  | close => simp
  | @char c cs s r h32 hquote hslash _ ih =>
    have hout : Outside cs := by
      rw [Outside, List.takeWhile_cons_of_pos (by simpa using hquote)] at ho
      exact fun hm => ho (List.mem_cons_of_mem c hm)
    intro hm
    obtain hc | hm := List.mem_cons.mp hm
    · exact hslash hc.symm
    · exact ih hout hm
  | escape => exact absurd ho (by simp [Outside])

/-- What comes back as it was written between the quotes was plain, when no backslash follows outside
of strings and no quote at once. -/
theorem plain_of_chars {s rest r : List Char} (h : Chars (s ++ '"' :: rest) s r)
    (ho : Outside rest) (hq : rest.head? ≠ some '"') : Plain s ∧ r = rest := by
  obtain hlt | ⟨hp, -, hr⟩ | ⟨x, w1, w2, hs, hw, hr⟩ := h.cases_quote rfl
  · omega
  · exact ⟨hp, hr⟩
  · have hslash := hr.no_slash ho
    have hne : w2 ≠ [] := by
      rintro rfl
      cases hr
      exact hq rfl
    obtain rfl | ⟨y, z, rfl⟩ := w2.eq_nil_or_concat
    · exact absurd rfl hne
    · have hlast : (w1 ++ '"' :: y) ++ [z] = x ++ ['\\'] := by
        rw [← hs, hw]
        simp
      have hz := (List.append_inj' hlast rfl).2
      refine absurd ?_ hslash
      rw [(List.cons.inj hz).1]
      simp

theorem outside_append {a b : List Char} (ha : ∀ c ∈ a, c ≠ '"' ∧ c ≠ '\\') (hb : Outside b) :
    Outside (a ++ b) := by
  rw [Outside, List.takeWhile_append_of_pos fun c hc => by simpa using (ha c hc).1]
  intro hm
  obtain hm | hm := List.mem_append.mp hm
  · exact (ha _ hm).2 rfl
  · exact hb hm

theorem outside_quote (cs : List Char) : Outside ('"' :: cs) := by simp [Outside]

end Strings

section Separated

def Delimited (cs : List Char) : Prop :=
  ∀ c ∈ cs.head?, isSpace c ∨ c = ',' ∨ c = ']' ∨ c = '}'

def join : List (List Char) → List Char
  | [] => []
  | [t] => t
  | t :: u :: ts => t ++ ',' :: join (u :: ts)

theorem spaces_nil : Spaces [] := by simp [Spaces]

theorem readsMember_chars {cs s cs' rest : List Char} {j : Json} (hs : Chars cs s (':' :: cs'))
    (h : Reads cs' j rest) : ReadsMember ('"' :: cs) (s, j) rest :=
  .mk (List.nil_append _).symm spaces_nil (show Chars cs s ([] ++ ':' :: cs') from hs) spaces_nil h

theorem delimited_spaces {ws cs : List Char} (hws : Spaces ws) (h : Delimited cs) :
    Delimited (ws ++ cs) := by
  cases ws with
  | nil => exact h
  | cons c ws =>
    intro d hd
    cases hd
    exact Or.inl (hws c List.mem_cons_self)

/-- Spaces before a mark that is no space, against none. -/
theorem spaces_eq_nil {ws cs ds : List Char} {c d : Char} (hws : Spaces ws) (hd : ¬ isSpace d)
    (h : ws ++ c :: cs = d :: ds) : ws = [] ∧ c = d ∧ cs = ds := by
  cases ws with
  | nil =>
    obtain ⟨rfl, rfl⟩ := List.cons.inj h
    exact ⟨rfl, rfl, rfl⟩
  | cons w ws =>
    obtain ⟨rfl, -⟩ := List.cons.inj h
    exact absurd (hws w List.mem_cons_self) hd

variable {α β : Type} {item : List Char → α → List Char → Prop} {close : Char}
  {text : β → List Char}

theorem outside_join {l : List β} (hl : ∀ b ∈ l, ∀ cs, Outside cs → Outside (text b ++ cs))
    {rest : List Char} (h : Outside rest) : Outside (join (l.map text) ++ rest) := by
  induction l with
  | nil => exact h
  | cons b l ih =>
    have htail := ih fun c hc => hl c (List.mem_cons_of_mem b hc)
    cases l with
    | nil => exact hl b List.mem_cons_self rest h
    | cons c l =>
      simp only [List.map_cons, join, List.append_assoc, List.cons_append] at htail ⊢
      exact hl b List.mem_cons_self _ (outside_append (a := [',']) (by simp) htail)

theorem items_join {l : List β} {as : List α} (hl : l ≠ [])
    (h : List.Forall₂ (fun b a => ∀ rest, item (text b ++ rest) a rest) l as)
    (rest : List Char) : Items item close (join (l.map text) ++ close :: rest) as rest := by
  induction h with
  | nil => exact absurd rfl hl
  | @cons b a l as hb hall ih =>
    cases l with
    | nil =>
      cases hall
      exact Items.last spaces_nil (hb (close :: rest))
    | cons c l =>
      have hrest := ih (by simp)
      simp only [List.map_cons, join, List.append_assoc, List.cons_append] at hrest ⊢
      exact Items.more spaces_nil (hb _) hrest

theorem Items.ne_nil {cs rest : List Char} {as : List α} (h : Items item close cs as rest) :
    as ≠ [] := by
  cases h <;> simp

/-- Items that come back as they were printed are each good, when each that comes back is and the
texts have no backslash outside of strings. -/
theorem items_back {good : β → Prop} {l : List β} {as : List α} {rest r : List Char}
    (hclose : close = ']' ∨ close = '}')
    (h : List.Forall₂ (fun b a => ∀ rest r, Delimited rest → Outside rest → Delimited r →
      item (text b ++ rest) a r → good b ∧ r = rest) l as)
    (htext : ∀ b ∈ l, ∀ cs, Outside cs → Outside (text b ++ cs))
    (ho : Outside rest) (hi : Items item close (join (l.map text) ++ close :: rest) as r) :
    (∀ b ∈ l, good b) ∧ r = rest := by
  have hspace : ¬ isSpace close := by rcases hclose with rfl | rfl <;> simp [isSpace]
  have hout : ∀ cs, Outside cs → Outside (close :: cs) := by
    intro cs hcs
    refine outside_append (a := [close]) ?_ hcs
    rcases hclose with rfl | rfl <;> simp
  have hdel : ∀ cs, Delimited (close :: cs) := by
    intro cs c hc
    cases hc
    tauto
  have hcomma : ∀ cs, Delimited (',' :: cs) := by
    intro cs c hc
    cases hc
    tauto
  induction h with
  | nil => exact absurd rfl hi.ne_nil
  | @cons b a l as hb hall ih =>
    have hl := fun c hc => htext c (List.mem_cons_of_mem b hc)
    cases l with
    | nil =>
      cases hall
      cases hi with
      | last hws hitem =>
        obtain ⟨hgood, hr⟩ := hb _ _ (hdel rest) (hout rest ho)
          (delimited_spaces hws (hdel _)) hitem
        obtain ⟨-, -, rfl⟩ := spaces_eq_nil hws hspace hr
        exact ⟨by simpa using hgood, rfl⟩
      | more _ _ hi => exact absurd rfl hi.ne_nil
    | cons c l =>
      have hnext := outside_join hl (hout rest ho)
      simp only [List.map_cons, join, List.append_assoc, List.cons_append] at hi hnext ih
      cases hi with
      | last => cases hall
      | more hws hitem hi =>
        obtain ⟨hgood, hr⟩ := hb _ _ (hcomma _) (outside_append (a := [',']) (by simp) hnext)
          (delimited_spaces hws (hcomma _)) hitem
        obtain ⟨-, -, rfl⟩ := spaces_eq_nil hws (by simp [isSpace]) hr
        obtain ⟨hrest, hr⟩ := ih hl hi
        exact ⟨by simpa using ⟨hgood, by simpa using hrest⟩, hr⟩

end Separated

section Numbers

open Numerals

def isNumberChar (c : Char) : Prop := c.isDigit = true ∨ c ∈ ['-', '+', '.', 'e', 'E']

theorem NumberText.chars {cs : List Char} {x : ℚ} (h : NumberText cs x) :
    ∀ c ∈ cs, isNumberChar c := by
  obtain ⟨neg, hds, -, hfs, hes⟩ := h
  have hf : ∀ fs y, Fraction fs y → ∀ c ∈ fs, isNumberChar c := by
    intro fs y hfs c hc
    cases hfs with
    | none => simp at hc
    | some hd =>
      obtain rfl | hc := List.mem_cons.mp hc
      · exact Or.inr (by simp)
      · exact Or.inl (hd.2 c hc)
  have he : ∀ es y, Exponent es y → ∀ c ∈ es, isNumberChar c := by
    intro es y hes c hc
    cases hes with
    | none => simp at hc
    | some he hsign hd =>
      simp only [List.mem_cons, List.mem_append] at hc
      simp only [List.mem_cons, List.not_mem_nil, or_false] at he hsign
      obtain hc | hc | hc := hc
      · exact Or.inr (by rcases he with rfl | rfl <;> simp [hc])
      · rcases hsign with rfl | rfl
        · simp at hc
        · exact Or.inr (by simp_all)
      · exact Or.inl (hd.2 c hc)
    | neg he hd =>
      simp only [List.mem_cons] at hc
      simp only [List.mem_cons, List.not_mem_nil, or_false] at he
      obtain hc | hc | hc := hc
      · exact Or.inr (by rcases he with rfl | rfl <;> simp [hc])
      · exact Or.inr (by simp [hc])
      · exact Or.inl (hd.2 c hc)
  intro c hc
  simp only [List.mem_append] at hc
  obtain hc | hc | hc | hc := hc
  · cases neg
    · simp at hc
    · exact Or.inr (by simp_all)
  · exact Or.inl (hds.2 c hc)
  · exact hf _ _ hfs c hc
  · exact he _ _ hes c hc

theorem Delimited.not_numberChar {cs : List Char} (h : Delimited cs) :
    ∀ c ∈ cs.head?, ¬ isNumberChar c := by
  intro c hc hn
  obtain hs | rfl | rfl | rfl := h c hc
  · simp only [isSpace, List.mem_cons, List.not_mem_nil, or_false] at hs
    rcases hs with rfl | rfl | rfl | rfl <;> revert hn <;> simp [isNumberChar]
  all_goals revert hn; simp [isNumberChar]

/-- Characters of numerals up to one that is none are the same in both readings. -/
theorem span_unique {ds ts r rest : List Char} (hds : ∀ c ∈ ds, isNumberChar c)
    (hts : ∀ c ∈ ts, isNumberChar c) (hr : ∀ c ∈ r.head?, ¬ isNumberChar c)
    (hrest : ∀ c ∈ rest.head?, ¬ isNumberChar c) (h : ds ++ r = ts ++ rest) :
    ds = ts ∧ r = rest := by
  obtain ⟨a, rfl, rfl⟩ | ⟨a, rfl, rfl⟩ := List.append_eq_append_iff.mp h
  · cases a with
    | nil => simp
    | cons c a => exact absurd (hts c (by simp)) (hr c rfl)
  · cases a with
    | nil => simp
    | cons c a => exact absurd (hds c (by simp)) (hrest c rfl)

theorem Delimited.head_ne {cs : List Char} (h : Delimited cs) {c : Char}
    (hc : ¬ isSpace c ∧ c ≠ ',' ∧ c ≠ ']' ∧ c ≠ '}') : cs.head? ≠ some c := by
  intro hcs
  have hd := h c hcs
  tauto

/-- A number is read to the end of its text, as nothing behind that is part of one. -/
theorem Reads.numberText {cs rest r : List Char} {x : ℚ} (h : Reads (cs ++ rest) (.number x) r)
    (hcs : ∀ c ∈ cs, isNumberChar c) (hne : cs ≠ []) (hrest : Delimited rest) (hr : Delimited r) :
    NumberText cs x ∧ r = rest := by
  have hread : ∃ ds, cs ++ rest = ds ++ r ∧ NumberText ds x := by
    generalize ht : cs ++ rest = t at h
    cases h with
    | @space c _ _ _ hs _ =>
      have hhead : cs.head? = some c := by
        rw [← List.head?_append_of_ne_nil cs hne, ht]
        rfl
      have hdel : Delimited [c] := by
        intro d hd
        cases hd
        exact Or.inl hs
      exact absurd (hcs c (List.mem_of_mem_head? hhead)) (hdel.not_numberChar c rfl)
    | number hds hn => exact ⟨_, hds, hn⟩
  obtain ⟨ds, hds, hn⟩ := hread
  obtain ⟨rfl, rfl⟩ := span_unique hn.chars hcs hr.not_numberChar hrest.not_numberChar hds.symm
  exact ⟨hn, rfl⟩

section Digits

theorem digits_padded (k n : Nat) : Digits ((Nat.toDigits 10 n).leftpad k '0') := by
  refine ⟨by simp [List.leftpad], fun c hc => ?_⟩
  rw [List.leftpad, List.mem_append] at hc
  obtain hc | hc := hc
  · rw [(List.mem_replicate.mp hc).2]
    decide
  · exact Nat.isDigit_of_mem_toDigits (by decide) (by decide) hc

theorem natural_padded (k n : Nat) : natural ((Nat.toDigits 10 n).leftpad k '0') = n := by
  rw [natural, List.leftpad, Nat.ofDigitChars_append]
  simp

theorem head_toDigits {n : Nat} (h : (Nat.toDigits 10 n).head? = some '0') :
    Nat.toDigits 10 n = ['0'] := by
  induction n using Nat.strong_induction_on with
  | _ n ih =>
    by_cases hn : n < 10
    · rw [Nat.toDigits_of_lt_base hn] at h ⊢
      rw [Option.some.inj h]
    · have hbase := Nat.toDigits_of_base_le (by decide : 1 < 10) (by omega : 10 ≤ n)
      have hhead : (Nat.toDigits 10 (n / 10)).head? = some '0' := by
        rw [hbase, List.head?_append_of_ne_nil _ Nat.toDigits_ne_nil] at h
        exact h
      have hzero := congrArg (Nat.ofDigitChars 10 · 0) (ih (n / 10) (by omega) hhead)
      simp only [Nat.ofDigitChars_ten_toDigits] at hzero
      have hdiv : n / 10 = 0 := hzero
      omega

end Digits

theorem leftpad_zero (cs : List Char) : cs.leftpad 0 '0' = cs := by simp [List.leftpad]

theorem numberText_signed (z : Int) {fs : List Char} {x : ℚ} (hf : Fraction fs x) :
    NumberText (decimal 0 z ++ fs) ((if z < 0 then -1 else 1) * (z.natAbs + x)) := by
  have hd := digits_padded 0 z.natAbs
  have hhead : ((Nat.toDigits 10 z.natAbs).leftpad 0 '0').head? = some '0' →
      (Nat.toDigits 10 z.natAbs).leftpad 0 '0' = ['0'] := by
    rw [leftpad_zero]
    exact head_toDigits
  have hn := NumberText.mk (decide (z < 0)) hd hhead hf Exponent.none
  rw [natural_padded] at hn
  by_cases hz : z < 0
  · simpa [decimal, hz] using hn
  · simpa [decimal, hz] using hn

theorem numberText_decimal (z : Int) : NumberText (decimal 0 z) z := by
  have hn := numberText_signed z Fraction.none
  have hz : (if z < 0 then -1 else 1) * ((z.natAbs : ℚ) + 0) = z := by
    have habs : (z.natAbs : ℚ) = |(z : ℚ)| := by simp
    by_cases hneg : z < 0
    · have hcast : (z : ℚ) < 0 := by exact_mod_cast hneg
      rw [if_pos hneg, habs, abs_of_neg hcast]
      ring
    · have hcast : (0 : ℚ) ≤ z := by exact_mod_cast Int.not_lt.mp hneg
      rw [if_neg hneg, habs, abs_of_nonneg hcast]
      ring
  rwa [List.append_nil, hz] at hn

theorem numberText_point (z : Int) (k n : Nat) :
    NumberText (decimal 0 z ++ '.' :: (Nat.toDigits 10 n).leftpad k '0')
      ((if z < 0 then -1 else 1) *
        (z.natAbs + n / 10 ^ ((Nat.toDigits 10 n).leftpad k '0').length)) := by
  have hn := numberText_signed z (Fraction.some (digits_padded k n))
  rwa [natural_padded] at hn

theorem Digits.no_point {ds : List Char} (h : Digits ds) : '.' ∉ ds := fun hm =>
  absurd (h.2 '.' hm) (by decide)

theorem Exponent.no_point {es : List Char} {e : Int} (h : Exponent es e) : '.' ∉ es := by
  cases h with
  | none => simp
  | some he hsign hd =>
    have hds := hd.no_point
    simp only [List.mem_cons, List.not_mem_nil, or_false] at he hsign
    rcases he with rfl | rfl <;> rcases hsign with rfl | rfl <;> simp [hds]
  | neg he hd =>
    have hds := hd.no_point
    simp only [List.mem_cons, List.not_mem_nil, or_false] at he
    rcases he with rfl | rfl <;> simp [hds]

theorem dropWhile_point {as bs : List Char} (ha : '.' ∉ as) :
    (as ++ '.' :: bs).dropWhile (· ≠ '.') = '.' :: bs := by
  have hpos : ∀ c ∈ as, decide (c ≠ '.') = true := by
    intro c hc
    simpa using ne_of_mem_of_not_mem hc ha
  rw [List.dropWhile_append_of_pos hpos]
  simp

/-- A point that no digit follows. -/
theorem not_numberText {as bs : List Char} {c : Char} (ha : '.' ∉ as) (hc : c.isDigit = false)
    (x : ℚ) : ¬ NumberText (as ++ '.' :: c :: bs) x := by
  intro h
  generalize ht : as ++ '.' :: c :: bs = t at h
  obtain ⟨neg, hds, -, hfs, hes⟩ := h
  have hsign : '.' ∉ (if neg then ['-'] else []) := by cases neg <;> simp
  cases hfs with
  | none =>
    have hmem : '.' ∈ as ++ '.' :: c :: bs := by simp
    rw [ht] at hmem
    simp only [List.mem_append, List.nil_append] at hmem
    have hd := hds.no_point
    have he := hes.no_point
    tauto
  | @some fs hf =>
    have hdrop := @dropWhile_point as (c :: bs) ha
    rw [ht, List.cons_append, ← List.append_assoc, dropWhile_point] at hdrop
    · cases fs with
      | nil => exact hf.1 rfl
      | cons f fs =>
        obtain ⟨rfl, -⟩ := List.cons.inj (List.cons.inj hdrop).2
        exact absurd (hf.2 f List.mem_cons_self) (by simp [hc])
    · intro hm
      exact (List.mem_append.mp hm).elim hsign hds.no_point

section Read

theorem scan_natural {ds : List Char} (hd : ∀ c ∈ ds, c.isDigit = true) (cs : List Char) (i : Nat) :
    scan 10 (ds ++ cs) i = scan 10 cs (Nat.ofDigitChars 10 ds i) := by
  induction ds generalizing i with
  | nil => simp
  | cons c ds ih =>
    have hc : 48 ≤ c.toNat ∧ c.toNat ≤ 57 := by
      simpa [Char.isDigit, UInt32.le_iff_toNat_le] using hd c List.mem_cons_self
    have hdigit : digit 10 c = some (c.toNat - 48) := by
      rw [digit]
      simp only [hc.1, hc.2, and_self, if_true]
      rw [if_pos (by omega)]
    rw [List.cons_append, scan, hdigit]
    dsimp only
    rw [ih (fun d hm => hd d (List.mem_cons_of_mem c hm)), Nat.ofDigitChars_cons]
    rfl

theorem sign_digits {ds : List Char} (hd : Digits ds) (cs : List Char) :
    sign (ds ++ cs) = (false, ds ++ cs) ∧
      (ds ++ cs).dropWhile Numerals.isSpace = ds ++ cs := by
  obtain ⟨c, ds, rfl⟩ := List.exists_cons_of_ne_nil hd.1
  have hc : 48 ≤ c.toNat ∧ c.toNat ≤ 57 := by
    simpa [Char.isDigit, UInt32.le_iff_toNat_le] using hd.2 c List.mem_cons_self
  exact sign_digit (ds ++ cs) hc

theorem Exponent.read {es : List Char} {e : Int} (h : Exponent es e) :
    exponent es = e ∧ ∀ i, scan 10 es i = (i, es) := by
  have hscan : ∀ ds, Digits ds → (scan 10 ds 0).1 = natural ds := by
    intro ds hd
    have hs := scan_natural hd.2 [] 0
    rw [List.append_nil] at hs
    rw [hs]
    rfl
  cases h with
  | none => exact ⟨rfl, fun i => rfl⟩
  | @some c sgn ds hc hsign hd =>
    have hs := (sign_digits hd []).1
    rw [List.append_nil] at hs
    simp only [List.mem_cons, List.not_mem_nil, or_false] at hc hsign
    refine ⟨?_, fun i => scan_stop (by rcases hc with rfl | rfl <;> rfl) _ i⟩
    rw [exponent, if_pos hc]
    rcases hsign with rfl | rfl
    · simp only [List.nil_append, hs, Bool.false_eq_true, if_false, hscan ds hd]
    · simp only [List.cons_append, List.nil_append, sign, Bool.false_eq_true, if_false, hscan ds hd]
  | @neg c ds hc hd =>
    simp only [List.mem_cons, List.not_mem_nil, or_false] at hc
    refine ⟨?_, fun i => scan_stop (by rcases hc with rfl | rfl <;> rfl) _ i⟩
    rw [exponent, if_pos hc]
    simp only [sign, if_true, hscan ds hd]

/-- `strtod` reads a numeral as the number that it denotes. -/
theorem strtod_numberText {cs : List Char} {x : ℚ} (h : NumberText cs x) : strtod cs = x := by
  obtain ⟨neg, hds, -, hfs, hes⟩ := h
  rename_i ds fs es x e
  have hsign : sign (((if neg then ['-'] else []) ++ (ds ++ (fs ++ es))).dropWhile
      Numerals.isSpace) = (neg, ds ++ (fs ++ es)) := by
    cases neg
    · rw [if_neg Bool.false_ne_true, List.nil_append, (sign_digits hds _).2, (sign_digits hds _).1]
    · rw [if_pos rfl, List.singleton_append, sign_minus]
  obtain ⟨hexp, hstop⟩ := hes.read
  rw [strtod, hsign]
  cases hfs with
  | none =>
    have hfraction : ∀ i, fraction i es = (i, 0, es) := by
      intro i
      unfold fraction
      split
      next => exact absurd hes.no_point (by simp)
      next => rfl
    simp only [List.nil_append, scan_natural hds.2, hstop, hfraction, hexp, pow_zero, div_one,
      add_zero]
    rfl
  | @some fs hf =>
    have hpoint : ∀ i, scan 10 ('.' :: (fs ++ es)) i = (i, '.' :: (fs ++ es)) := fun i =>
      scan_stop rfl _ i
    have hnat : (Nat.ofDigitChars 10 fs (Nat.ofDigitChars 10 ds 0) : ℚ) =
        10 ^ fs.length * natural ds + natural fs := by
      rw [Nat.ofDigitChars_eq_ofDigitChars_zero, ← natural, ← natural]
      push_cast
      ring
    have hlen : (fs ++ es).length - es.length = fs.length := by simp
    simp only [List.cons_append, scan_natural hds.2, hpoint, fraction, scan_natural hf.2, hstop, hexp,
      hnat, hlen]
    field_simp

theorem NumberText.unique {cs : List Char} {x y : ℚ} (hx : NumberText cs x) (hy : NumberText cs y) :
    x = y := (strtod_numberText hx).symm.trans (strtod_numberText hy)

end Read

end Numbers

end JsonText
