import EdgeNode.Nxjson.Strings

/-! The numerals of JSON are read as their numbers, when they are in range. -/

namespace EdgeNode.Nxjson

open JsonText Utf8 Numerals

section Strtoll

variable {ds more : List Char}

/-- What may stand behind the digits. -/
def Ends (more : List Char) : Prop := ∀ c ∈ more.head?, digit 10 c = none ∧ c ≠ 'x' ∧ c ≠ 'X'

theorem hexPrefix_ends (h : Ends more) : hexPrefix ('0' :: more) = '0' :: more := by
  unfold hexPrefix
  split
  next x c cs heq =>
    obtain ⟨-, rfl⟩ := List.cons.inj heq
    obtain ⟨-, hx, hX⟩ := h x rfl
    rw [if_neg fun hc => hc.1.elim hx hX]
  next => rfl

theorem scan_ends {b : Nat} (hb : b ≤ 10) (h : Ends more) (i : Nat) : scan b more i = (i, more) := by
  cases more with
  | nil => rfl
  | cons c more =>
    refine scan_stop ?_ more i
    have hten := (h c rfl).1
    simp only [digit] at hten ⊢
    split_ifs at hten ⊢ <;> omega

theorem scan_base (hd : Digits ds) (hhead : ds.head? = some '0' → ds = ['0']) (h : Ends more) :
    ∃ b, base (ds ++ more) = (b, ds ++ more) ∧ scan b (ds ++ more) 0 = (natural ds, more) := by
  by_cases hzero : ds.head? = some '0'
  · obtain rfl := hhead hzero
    refine ⟨8, ?_, ?_⟩
    · rw [List.singleton_append, base, hexPrefix_ends h, if_pos rfl]
    · have hdigit : digit 8 '0' = some 0 := rfl
      rw [List.singleton_append, scan, hdigit]
      exact scan_ends (by decide) h _
  · refine ⟨10, ?_, ?_⟩
    · obtain ⟨c, ds, rfl⟩ := List.exists_cons_of_ne_nil hd.1
      unfold base
      split
      next heq =>
        obtain ⟨rfl, -⟩ := List.cons.inj heq
        exact absurd rfl hzero
      next => rfl
    · rw [scan_natural hd.2, scan_ends (Nat.le_refl _) h]
      rfl

/-- The digits are taken, with the sign before them. -/
theorem strtoll_digits (neg : Bool) (hd : Digits ds) (hhead : ds.head? = some '0' → ds = ['0'])
    (h : Ends more) : strtoll ((if neg then ['-'] else []) ++ (ds ++ more)) =
      let n := natural ds
      let k := ((if neg then ['-'] else []) ++ ds).length
      if neg then if n ≤ 2 ^ 63 then (Int64.ofInt (-n), k, false) else (Int64.minValue, k, true)
      else if n < 2 ^ 63 then (Int64.ofInt n, k, false) else (Int64.maxValue, k, true) := by
  obtain ⟨b, hbase, hscan⟩ := scan_base hd hhead h
  have hpos := List.length_pos_of_ne_nil hd.1
  have hsign : sign (((if neg then ['-'] else []) ++ (ds ++ more)).dropWhile Numerals.isSpace) =
      (neg, ds ++ more) := by
    cases neg
    · rw [if_neg Bool.false_ne_true, List.nil_append, (sign_digits hd _).2, (sign_digits hd _).1]
    · rw [if_pos rfl, List.singleton_append, sign_minus]
  have hlen : ((if neg then ['-'] else []) ++ (ds ++ more)).length - more.length =
      ((if neg then ['-'] else []) ++ ds).length := by
    simp only [List.length_append]
    omega
  rw [strtoll, hsign]
  dsimp only
  rw [hbase]
  dsimp only
  rw [hscan]
  dsimp only
  rw [if_neg (by rw [List.length_append]; omega), hlen]

end Strtoll

section Ascii

theorem length_encode_ascii {cs : List Char} (h : ∀ c ∈ cs, c.toNat < 128) :
    (encode cs).length = cs.length := by
  induction cs with
  | nil => rfl
  | cons c cs ih =>
    rw [encode_ascii (h c List.mem_cons_self), List.length_cons, List.length_cons,
      ih fun d hd => h d (List.mem_cons_of_mem c hd)]

theorem drop_ascii {cs : List Char} (h : ∀ c ∈ cs, c.toNat < 128) (rest : List Char) :
    (encode (cs ++ rest)).drop cs.length = encode rest := by
  rw [encode_append, ← length_encode_ascii h, List.drop_left]

/-- The bytes of ASCII are the characters that they encode. -/
theorem chars_ascii {cs : List Char} (h : ∀ c ∈ cs, c.toNat < 128) (rest : List Char) :
    Reader.chars (encode (cs ++ rest)) = cs ++ Reader.chars (encode rest) := by
  induction cs with
  | nil => rfl
  | cons c cs ih =>
    have hc := h c List.mem_cons_self
    have hback : Char.ofNat c.toUInt8.toNat = c := by
      rw [Reader.toNat_toUInt8 hc, Char.ofNat_toNat]
    have hrest := ih fun d hd => h d (List.mem_cons_of_mem c hd)
    rw [Reader.chars] at hrest
    rw [List.cons_append, encode_ascii hc, Reader.chars, List.map_cons, hback, hrest]
    rfl

theorem numberChar_ascii {c : Char} (h : isNumberChar c) : c.toNat < 128 := by
  obtain hd | hm := h
  · have hc : 48 ≤ c.toNat ∧ c.toNat ≤ 57 := by
      simpa [Char.isDigit, UInt32.le_iff_toNat_le] using hd
    omega
  · have hall : ∀ d ∈ ['-', '+', '.', 'e', 'E'], d.toNat < 128 := forall_mem_of_all (by decide)
    exact hall c hm

theorem delimiter_mem {rest : List Char} (h : Delimited rest) {c : Char} (hc : c ∈ rest.head?) :
    c ∈ [' ', '\t', '\n', '\r', ',', ']', '}'] := by
  obtain hs | rfl | rfl | rfl := h c hc
  · simp only [JsonText.isSpace, List.mem_cons, List.not_mem_nil, or_false] at hs
    obtain rfl | rfl | rfl | rfl := hs <;> simp
  all_goals simp

/-- The bytes of a text go on as the text does. -/
theorem delimited_chars {rest : List Char} (h : Delimited rest) :
    Delimited (Reader.chars (encode rest)) := by
  cases rest with
  | nil => exact h
  | cons c rest =>
    have hall : ∀ d ∈ [' ', '\t', '\n', '\r', ',', ']', '}'], d.toNat < 128 :=
      forall_mem_of_all (by decide)
    have hc := hall c (delimiter_mem h rfl)
    rw [← List.singleton_append, chars_ascii (by simpa using hc)]
    exact h

theorem ends_delimited {rest : List Char} (h : Delimited rest) : Ends rest := by
  intro c hc
  have hall : ∀ d ∈ [' ', '\t', '\n', '\r', ',', ']', '}'],
      digit 10 d = none ∧ d ≠ 'x' ∧ d ≠ 'X' := forall_mem_of_all (by decide)
  exact hall c (delimiter_mem h hc)

end Ascii

section Doubles

variable {δ : Type}

/-- Doubles by the numbers that their numerals denote, and which of these are in range. -/
def Rounds (d : Doubles δ) (round : ℚ → δ) (range : ℚ → Prop) : Prop :=
  ∀ ds x rest, NumberText ds x → Delimited rest →
    (d.strtod (ds ++ rest)).1 = round x ∧ (d.strtod (ds ++ rest)).2.1 = ds.length ∧
      ((d.strtod (ds ++ rest)).2.2 = true ↔ ¬ range x)

instance : DecidablePred isNumberChar := fun _ => inferInstanceAs (Decidable (_ ∨ _))

/-- Numbers that are not rounded. -/
def exact : Doubles ℚ where
  strtod cs := (strtod (cs.takeWhile isNumberChar), (cs.takeWhile isNumberChar).length, false)
  ofInt i := i.toInt
  strtod_le _ := (List.takeWhile_sublist _).length_le

theorem exact_rounds : Rounds exact id fun _ => True := by
  intro ds x rest hds hrest
  have hspan : (ds ++ rest).takeWhile isNumberChar = ds := by
    rw [List.takeWhile_append_of_pos fun c hc => decide_eq_true (hds.chars c hc)]
    have hnil : rest.takeWhile isNumberChar = [] := by
      cases rest with
      | nil => rfl
      | cons c rest =>
        exact List.takeWhile_cons_of_neg (by simpa using hrest.not_numberChar c rfl)
    rw [hnil, List.append_nil]
  refine ⟨?_, ?_, by simp [exact]⟩
  · exact (congrArg strtod hspan).trans (strtod_numberText hds)
  · exact congrArg List.length hspan

end Doubles

section Numbers

variable {δ τ : Type} {d : Doubles δ} {round : ℚ → δ} {range : ℚ → Prop}

/-- The nodes for a number. Of a double the integer is only what comes before its point. -/
inductive MeansNumber (d : Doubles δ) (round : ℚ → δ) : Value δ τ → ℚ → Prop
  | integer (i : Int64) : MeansNumber d round (.integer i (d.ofInt i)) i.toInt
  | double (i : Int64) (x : ℚ) : MeansNumber d round (.double i (round x)) x

/-- `strtoll` at a numeral: the integer is that before the point, when it is in range. -/
theorem strtoll_numeral (neg : Bool) {ds more : List Char} (hd : Digits ds)
    (hhead : ds.head? = some '0' → ds = ['0']) (h : Ends more) :
    ∃ i e, strtoll ((if neg then ['-'] else []) ++ (ds ++ more)) =
        (i, ((if neg then ['-'] else []) ++ ds).length, e) ∧
      (e = false → i.toInt = (if neg then -1 else 1) * (natural ds : Int)) := by
  rw [strtoll_digits neg hd hhead h]
  dsimp only
  cases neg with
  | false =>
    by_cases hn : natural ds < 2 ^ 63
    · refine ⟨_, _, if_pos hn, fun _ => ?_⟩
      rw [Int64.toInt_ofInt_of_le (by omega) (by exact_mod_cast hn)]
      simp
    · exact ⟨_, _, if_neg hn, fun h => absurd h (by decide)⟩
  | true =>
    by_cases hn : natural ds ≤ 2 ^ 63
    · refine ⟨_, _, if_pos hn, fun _ => ?_⟩
      have hle : -2 ^ 63 ≤ -(natural ds : Int) := Int.neg_le_neg (by exact_mod_cast hn)
      rw [Int64.toInt_ofInt_of_le hle (by omega)]
      simp
    · exact ⟨_, _, if_neg hn, fun h => absurd h (by decide)⟩

/-- What comes behind the digits of a numeral is no digit, and goes on with a point or an exponent or is
the end. -/
theorem numeral_rest {fs es rest : List Char} {x : ℚ} {e : Int} (hf : Fraction fs x)
    (he : Exponent es e) (hrest : Delimited rest) :
    Ends (fs ++ es ++ Reader.chars (encode rest)) ∧
      (goesOn ((encode (fs ++ es ++ rest)).headD 0) = true ↔ fs ++ es ≠ []) := by
  have hmark : ∀ c ∈ ['.', 'e', 'E'], ∀ more more' : List Char, Ends (c :: more) ∧
      (goesOn ((encode (c :: more')).headD 0) = true ↔ c :: more ≠ []) := by
    have hall : ∀ c ∈ ['.', 'e', 'E'], c.toNat < 128 ∧ goesOn c.toUInt8 = true ∧
        digit 10 c = none ∧ c ≠ 'x' ∧ c ≠ 'X' := forall_mem_of_all (by decide)
    intro c hc more more'
    obtain ⟨hascii, hgo, hends⟩ := hall c hc
    refine ⟨?_, ?_⟩
    · rintro _ ⟨⟩
      exact hends
    · rw [encode_ascii hascii, List.headD_cons]
      exact iff_of_true hgo (List.cons_ne_nil c more)
  cases hf with
  | some =>
    have h := hmark '.' (by decide)
    exact ⟨(h _ []).1, (h _ _).2⟩
  | none =>
    have hexp : ∀ c ∈ ['e', 'E'], c ∈ ['.', 'e', 'E'] := fun c hc => List.mem_cons_of_mem _ hc
    cases he with
    | some hc =>
      have h := hmark _ (hexp _ hc)
      exact ⟨(h _ []).1, (h _ _).2⟩
    | neg hc =>
      have h := hmark _ (hexp _ hc)
      exact ⟨(h _ []).1, (h _ _).2⟩
    | none =>
      refine ⟨ends_delimited (delimited_chars hrest), iff_of_false ?_ (by simp)⟩
      have hall : ∀ c ∈ [' ', '\t', '\n', '\r', ',', ']', '}'],
          c.toNat < 128 ∧ goesOn c.toUInt8 = false := forall_mem_of_all (by decide)
      cases rest with
      | nil => decide
      | cons c rest =>
        obtain ⟨hascii, hgo⟩ := hall c (delimiter_mem hrest rfl)
        rw [List.nil_append, List.nil_append, encode_ascii hascii, List.headD_cons, hgo]
        exact Bool.false_ne_true

/-- Every number fails while `ERANGE` is there. -/
theorem number_sticky (t : List UInt8) : Reader.number d t true = (none, true) := by
  rw [Reader.number]
  exact if_pos (.inr rfl)

theorem number_range {t : List UInt8} {i : Int64} {k : Nat}
    (h : strtoll (Reader.chars t) = (i, k, true)) : Reader.number d t false = (none, true) := by
  rw [Reader.number, h]
  exact if_pos (.inr rfl)

theorem number_integer {t : List UInt8} {i : Int64} {k : Nat}
    (h : strtoll (Reader.chars t) = (i, k, false)) (hk : k ≠ 0)
    (hgo : ¬ goesOn ((t.drop k).headD 0) = true) :
    Reader.number d t false = (some (.integer i (d.ofInt i), t.drop k), false) := by
  rw [Reader.number, h]
  dsimp only
  rw [if_neg (by simpa using hk), if_neg hgo]
  rfl

theorem number_double {t : List UInt8} {i : Int64} {k k' : Nat} {y : δ} {e : Bool}
    (h : strtoll (Reader.chars t) = (i, k, false)) (hk : k ≠ 0)
    (hgo : goesOn ((t.drop k).headD 0) = true) (hd : d.strtod (Reader.chars t) = (y, k', e))
    (hk' : k' ≠ 0) : Reader.number d t false =
      if e then (none, true) else (some (.double i y, t.drop k'), false) := by
  rw [Reader.number, h, hd]
  dsimp only
  rw [if_neg (by simpa using hk), if_pos hgo]
  cases e
  · exact if_neg (by simpa using hk')
  · exact if_pos (.inr rfl)

/-- The integer before the point fits into its word, and the number into a double if it is no integer. -/
def Fits (range : ℚ → Prop) (cs : List Char) (x : ℚ) : Prop :=
  (strtoll cs).2.2 = false ∧ ((∀ c ∈ cs, c ∉ ['.', 'e', 'E']) ∨ range x)

theorem strtoll_flag (neg : Bool) {ds more more' : List Char} (hd : Digits ds)
    (hhead : ds.head? = some '0' → ds = ['0']) (h : Ends more) (h' : Ends more') :
    (strtoll ((if neg then ['-'] else []) ++ (ds ++ more))).2.2 =
      (strtoll ((if neg then ['-'] else []) ++ (ds ++ more'))).2.2 := by
  rw [strtoll_digits neg hd hhead h, strtoll_digits neg hd hhead h']

/-- A numeral without a mark is one of an integer. -/
theorem numeral_marks (neg : Bool) {ds fs es : List Char} {x : ℚ} {e : Int} (hd : Digits ds)
    (hf : Fraction fs x) (he : Exponent es e) :
    (∀ c ∈ (if neg then ['-'] else []) ++ (ds ++ (fs ++ es)), c ∉ ['.', 'e', 'E']) ↔ fs ++ es = [] := by
  have hdigit : ∀ c, c.isDigit = true → c ∉ ['.', 'e', 'E'] := by
    rintro c hc hm
    have hall : ∀ c ∈ ['.', 'e', 'E'], c.isDigit = false := forall_mem_of_all (by decide)
    rw [hall c hm] at hc
    cases hc
  refine ⟨fun h => ?_, fun h c hc => ?_⟩
  · have hnone : ∀ c ∈ fs ++ es, c ∉ ['.', 'e', 'E'] := fun c hc =>
      h c (List.mem_append_right _ (List.mem_append_right _ hc))
    cases hf with
    | some => exact absurd (by simp) (hnone '.' (by simp))
    | none =>
      cases he with
      | none => rfl
      | some hc => exact absurd (List.mem_cons_of_mem _ hc) (hnone _ (by simp))
      | neg hc => exact absurd (List.mem_cons_of_mem _ hc) (hnone _ (by simp))
  · rw [h, List.append_nil, List.mem_append] at hc
    obtain hc | hc := hc
    · cases neg
      · simp at hc
      · rw [if_pos rfl, List.mem_singleton] at hc
        subst hc
        decide
    · exact hdigit c (hd.2 c hc)

/-- A number is read, or `ERANGE` is set. -/
theorem number_numeral (hd : Rounds d round range) {cs rest : List Char} {x : ℚ}
    (h : NumberText cs x) (hrest : Delimited rest) :
    (¬ Fits range cs x ∧ Reader.number d (encode (cs ++ rest)) false = (none, true)) ∨
      ∃ v, Reader.number d (encode (cs ++ rest)) false = (some (v, encode rest), false) ∧
        MeansNumber d round v x := by
  have hascii : ∀ c ∈ cs, c.toNat < 128 := fun c hc => numberChar_ascii (h.chars c hc)
  have hchars := chars_ascii hascii rest
  obtain ⟨hvalue, htaken, hrange⟩ := hd cs x _ h (delimited_chars hrest)
  rw [← hchars] at hvalue htaken hrange
  generalize hr : d.strtod (Reader.chars (encode (cs ++ rest))) = r at hvalue htaken hrange
  obtain ⟨y, k', e''⟩ := r
  obtain ⟨neg, hds, hhead, hfs, hes⟩ := h
  rename_i ds fs es x e
  obtain ⟨hends, hgo⟩ := numeral_rest hfs hes hrest
  have hnil : Delimited [] := by simp [Delimited]
  have hflag := strtoll_flag neg hds hhead (numeral_rest hfs hes hnil).1 hends
  obtain ⟨i, e', hint, hval⟩ := strtoll_numeral neg hds hhead hends
  rw [Reader.chars, encode_nil, List.map_nil, List.append_nil, hint] at hflag
  have hsplit : ∀ sgn l : List Char,
      sgn ++ (ds ++ (fs ++ es)) ++ l = (sgn ++ ds) ++ (fs ++ es ++ l) := by
    intro sgn l
    simp
  have hpos := List.length_pos_of_ne_nil hds.1
  rw [← List.append_assoc, ← hsplit, ← hchars] at hint
  have hhere : (encode ((if neg then ['-'] else []) ++ (ds ++ (fs ++ es)) ++ rest)).drop
      ((if neg then ['-'] else []) ++ ds).length = encode (fs ++ es ++ rest) := by
    rw [hsplit]
    refine drop_ascii (fun c hc => hascii c ?_) _
    rw [← List.append_assoc]
    exact List.mem_append_left _ hc
  rw [← hhere] at hgo
  cases e' with
  | true =>
    refine .inl ⟨fun hfits => ?_, number_range hint⟩
    rw [Fits, hflag] at hfits
    exact Bool.false_ne_true hfits.1.symm
  | false =>
    have hk : ((if neg then ['-'] else []) ++ ds).length ≠ 0 := by
      rw [List.length_append]
      omega
    by_cases hend : fs ++ es = []
    · have hn := number_integer (d := d) hint hk fun h => hgo.mp h hend
      have hx : (if neg then -1 else 1) * ((natural ds : ℚ) + x) * 10 ^ e = i.toInt := by
        obtain ⟨rfl, rfl⟩ := List.append_eq_nil_iff.mp hend
        cases hfs
        cases hes
        rw [hval rfl]
        push_cast
        ring
      have hback : encode (fs ++ es ++ rest) = encode rest := by rw [hend, List.nil_append]
      rw [hhere, hback] at hn
      rw [hx]
      exact .inr ⟨_, hn, .integer i⟩
    · have hk' : k' ≠ 0 := by
        have hlen : k' = ((if neg then ['-'] else []) ++ (ds ++ (fs ++ es))).length := htaken
        rw [hlen, ← List.append_assoc, List.length_append]
        omega
      have hdrop := drop_ascii hascii rest
      have hy : y = round ((if neg then -1 else 1) * ((natural ds : ℚ) + x) * 10 ^ e) := hvalue
      rw [← htaken] at hdrop
      rw [number_double hint hk (hgo.mpr hend) hr hk', hdrop]
      cases e''
      · refine .inr ⟨_, rfl, ?_⟩
        rw [hy]
        exact .double i _
      · refine .inl ⟨fun hfits => ?_, rfl⟩
        obtain ⟨-, hplain | hin⟩ := hfits
        · exact hend ((numeral_marks neg hds hfs hes).mp hplain)
        · exact hrange.mp rfl hin

end Numbers

end EdgeNode.Nxjson
