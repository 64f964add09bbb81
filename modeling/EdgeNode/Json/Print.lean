import EdgeNode.Json.Tree

/-! The trees whose text `FTE_JSON_VALUE_snprint` gives back. -/

namespace EdgeNode.Json

open Numerals JsonText

section Text

theorem printString_append (s : CString) (rest : List Char) :
    printString s ++ rest = '"' :: (s.val ++ '"' :: rest) := by
  simp [printString]

theorem decimal_chars (k : Nat) (z : Int) : ∀ c ∈ decimal k z, c.isDigit = true ∨ c = '-' := by
  intro c hc
  by_cases hz : z < 0
  · rw [decimal, if_pos hz] at hc
    obtain rfl | hc := List.mem_cons.mp hc
    · exact Or.inr rfl
    · exact Or.inl ((digits_padded _ _).2 c hc)
  · rw [decimal, if_neg hz] at hc
    exact Or.inl ((digits_padded _ _).2 c hc)

theorem decimal_ne {k : Nat} {z : Int} {c d : Char} (hc : c ∈ decimal k z) (hd : d.isDigit = false)
    (hm : d ≠ '-') : c ≠ d := by
  rintro rfl
  obtain h | h := decimal_chars k z c hc
  · exact absurd h (by simp [hd])
  · exact hm h

theorem outside_decimal (k : Nat) (z : Int) {rest : List Char} (h : Outside rest) :
    Outside (decimal k z ++ rest) :=
  outside_append (fun _ hc => ⟨decimal_ne hc rfl (by decide), decimal_ne hc rfl (by decide)⟩) h

theorem outside_hex (k n : Nat) {rest : List Char} (h : Outside rest) :
    Outside (Numerals.hex k n ++ rest) := by
  refine outside_append (fun c hc => ⟨?_, ?_⟩) h
  all_goals
    rintro rfl
    exact absurd (isSome_digit_padded (by decide) (by decide) hc) (by decide)

attribute [local simp] snprint

/-- A backslash stands in strings only. -/
theorem outside_snprint (t : Tree) : ∀ rest, Outside rest → Outside (snprint t ++ rest) := by
  induction t using Tree.induct with
  | string s =>
    intro rest _
    rw [snprint, printString_append]
    exact outside_quote _
  | number n =>
    intro rest h
    exact outside_decimal 0 _ h
  | hex n =>
    intro rest h
    exact outside_append (a := ['0', 'x']) (by simp) (outside_hex 8 _ h)
  | float n =>
    intro rest h
    rw [snprint, printFloat]
    split
    · exact outside_decimal 0 _ h
    · rw [List.append_assoc]
      exact outside_decimal 0 _ (outside_append (a := ['.']) (by simp) (outside_decimal 2 _ h))
  | pair s v _ =>
    intro rest _
    rw [snprint, List.append_assoc, printString_append]
    exact outside_quote _
  | object s ih =>
    intro rest h
    rw [snprint, (snprintSlots_eq s).1, List.cons_append, List.append_assoc]
    exact outside_append (a := ['{']) (by simp)
      (outside_join ih (outside_append (a := ['}']) (by simp) h))
  | array s ih =>
    intro rest h
    rw [snprint, (snprintSlots_eq s).1, List.cons_append, List.append_assoc]
    exact outside_append (a := ['[']) (by simp)
      (outside_join ih (outside_append (a := [']']) (by simp) h))
  | true => exact fun rest h => outside_append (by simp) h
  | false => exact fun rest h => outside_append (by simp) h
  | null => exact fun rest h => outside_append (by simp) h

end Text

section Numbers

theorem decimal_numberChar (k : Nat) (z : Int) : ∀ c ∈ decimal k z, isNumberChar c := by
  intro c hc
  obtain hd | rfl := decimal_chars k z c hc
  · exact Or.inl hd
  · exact Or.inr (by simp)

theorem printFloat_numberChar (z : Int) : ∀ c ∈ printFloat z, isNumberChar c := by
  intro c hc
  rw [printFloat] at hc
  split at hc
  · exact decimal_numberChar _ _ c hc
  · rw [List.mem_append, List.mem_cons] at hc
    obtain hc | rfl | hc := hc
    · exact decimal_numberChar _ _ c hc
    · exact Or.inr (by simp)
    · exact decimal_numberChar _ _ c hc

theorem decimal_ne_nil (k : Nat) (z : Int) : decimal k z ≠ [] := by
  rw [decimal]
  split
  · simp
  · exact (digits_padded k z.natAbs).1

theorem printFloat_ne_nil (z : Int) : printFloat z ≠ [] := by
  rw [printFloat]
  split
  · exact decimal_ne_nil 0 _
  · simp

/-- Two digits behind the point are enough below a hundred. -/
theorem numberText_printFloat {z : Int} (h : 0 ≤ z ∨ z.tmod 100 = 0) :
    NumberText (printFloat z) (z / 100) := by
  have hdiv := Int.mul_tdiv_add_tmod z 100
  by_cases hz : z.tmod 100 = 0
  · have hq : ((z : ℚ) / 100) = (z.tdiv 100 : Int) := by
      rw [div_eq_iff (by norm_num)]
      exact_mod_cast (by omega : z = z.tdiv 100 * 100)
    rw [printFloat, if_pos hz, hq]
    exact numberText_decimal _
  · have hnonneg : 0 ≤ z := by tauto
    obtain ⟨n, rfl⟩ := Int.eq_ofNat_of_zero_le hnonneg
    have hmod : ((n : Int).tmod 100) = (n % 100 : Nat) := by
      rw [Int.tmod_eq_emod_of_nonneg hnonneg]
      rfl
    have hquot : ((n : Int).tdiv 100) = (n / 100 : Nat) := by
      rw [Int.tdiv_eq_ediv_of_nonneg hnonneg]
      rfl
    have hlen : ((Nat.toDigits 10 (n % 100)).leftpad 2 '0').length = 2 :=
      length_padded (by decide) (by decide) (Nat.mod_lt _ (by decide))
    have hn := numberText_point (n / 100 : Nat) 2 (n % 100)
    rw [hlen, if_neg (by omega), Int.natAbs_natCast] at hn
    have hsum : ((n : Int) : ℚ) / 100 = 1 * ((n / 100 : Nat) + (n % 100 : Nat) / 10 ^ 2) := by
      have hsplit : (n : ℚ) = 100 * (n / 100 : Nat) + (n % 100 : Nat) := by
        exact_mod_cast (Nat.div_add_mod n 100).symm
      rw [Int.cast_natCast]
      nth_rewrite 1 [hsplit]
      ring
    rw [printFloat, if_neg hz, hmod, hquot, hsum]
    have hpad : decimal 2 ((n % 100 : Nat) : Int) = (Nat.toDigits 10 (n % 100)).leftpad 2 '0' := by
      rw [decimal, if_neg (by omega), Int.natAbs_natCast]
    rw [hpad]
    exact hn

/-- The remainder has the sign of the number, and is written with it. -/
theorem not_numberText_printFloat {z : Int} (hz : z < 0) (hmod : z.tmod 100 ≠ 0) (x : ℚ) :
    ¬ NumberText (printFloat z) x := by
  have hneg : z.tmod 100 < 0 := by
    have hpos := Int.tmod_nonneg 100 (by omega : 0 ≤ -z)
    rw [Int.neg_tmod] at hpos
    omega
  have hpoint : '.' ∉ decimal 0 (z.tdiv 100) := fun hm =>
    decimal_ne hm rfl (by decide) rfl
  have hminus : decimal 2 (z.tmod 100) =
      '-' :: (Nat.toDigits 10 (z.tmod 100).natAbs).leftpad 1 '0' := by
    rw [decimal, if_pos hneg]
  rw [printFloat, if_neg hmod, hminus]
  exact not_numberText hpoint rfl x

end Numbers

section Forward

theorem exists_forall₂ {α β : Type} {R : α → β → Prop} {l : List α} (h : ∀ a ∈ l, ∃ b, R a b) :
    ∃ bs, List.Forall₂ R l bs := by
  induction l with
  | nil => exact ⟨[], List.Forall₂.nil⟩
  | cons a l ih =>
    obtain ⟨b, hb⟩ := h a List.mem_cons_self
    obtain ⟨bs, hbs⟩ := ih fun c hc => h c (List.mem_cons_of_mem a hc)
    exact ⟨b :: bs, List.Forall₂.cons hb hbs⟩

/-- The text of a tree denotes what the tree stands for, whatever is behind it. -/
def ReadsOn (t : Tree) : Prop :=
  ∃ j, denote t = some j ∧ ∀ rest, Reads (snprint t ++ rest) j rest

def MemberReadsOn (t : Tree) : Prop :=
  ∃ m, member t = some m ∧ ∀ rest, ReadsMember (snprint t ++ rest) m rest

theorem memberReadsOn_pair {s : CString} {v : Tree} (hs : Plain s.val) (hv : ReadsOn v) :
    MemberReadsOn (.pair s v) := by
  obtain ⟨j, hj, hreads⟩ := hv
  refine ⟨(s.val, j), by rw [member, hj]; rfl, fun rest => ?_⟩
  have hname : Chars (s.val ++ '"' :: ':' :: (snprint v ++ rest)) s.val
      ([] ++ ':' :: (snprint v ++ rest)) := chars_plain hs _
  rw [snprint, List.append_assoc, printString_append]
  exact ReadsMember.mk (List.nil_append _).symm spaces_nil hname spaces_nil (hreads rest)

theorem readsOn_object {s : Slots} (hs : ∀ t ∈ s.toList, MemberReadsOn t) : ReadsOn (.object s) := by
  obtain ⟨ms, hms⟩ := exists_forall₂ hs
  have hden := (members_eq s ms).mpr (hms.imp fun _ _ h => h.1)
  refine ⟨.object ms, by rw [denote, hden]; rfl, fun rest => ?_⟩
  rw [snprint, (snprintSlots_eq s).1, List.cons_append, List.append_assoc]
  by_cases hnil : s.toList = []
  · rw [hnil] at hms ⊢
    cases hms
    exact Reads.emptyObject (List.nil_append _).symm spaces_nil
  · exact Reads.object (items_join hnil (hms.imp fun _ _ h => h.2) rest)

theorem readsOn_array {s : Slots} (hs : ∀ t ∈ s.toList, ReadsOn t) : ReadsOn (.array s) := by
  obtain ⟨js, hjs⟩ := exists_forall₂ hs
  have hden := (elements_eq s js).mpr (hjs.imp fun _ _ h => h.1)
  refine ⟨.array js, by rw [denote, hden]; rfl, fun rest => ?_⟩
  rw [snprint, (snprintSlots_eq s).1, List.cons_append, List.append_assoc]
  by_cases hnil : s.toList = []
  · rw [hnil] at hjs ⊢
    cases hjs
    exact Reads.emptyArray (List.nil_append _).symm spaces_nil
  · exact Reads.array (items_join hnil (hjs.imp fun _ _ h => h.2) rest)

theorem readsOn (t : Tree) :
    (Printable t → ReadsOn t) ∧ (PrintableMember t → MemberReadsOn t) := by
  induction t using Tree.induct with
  | string s =>
    refine ⟨fun h => ⟨_, rfl, fun rest => ?_⟩, False.elim⟩
    rw [snprint, printString_append]
    exact Reads.string (chars_plain h rest)
  | number n =>
    exact ⟨fun _ => ⟨_, rfl, fun rest => Reads.number rfl (numberText_decimal _)⟩, False.elim⟩
  | hex n => exact ⟨False.elim, False.elim⟩
  | float n =>
    exact ⟨fun h => ⟨_, rfl, fun rest => Reads.number rfl (numberText_printFloat h)⟩, False.elim⟩
  | pair s v ih => exact ⟨False.elim, fun h => memberReadsOn_pair h.1 (ih.1 h.2)⟩
  | object s ih =>
    refine ⟨fun h => ?_, False.elim⟩
    exact readsOn_object fun t ht => (ih t ht).2 ((printableMembers_iff s).mp h t ht)
  | array s ih =>
    refine ⟨fun h => ?_, False.elim⟩
    exact readsOn_array fun t ht => (ih t ht).1 ((printableElements_iff s).mp h t ht)
  | true => exact ⟨fun _ => ⟨_, rfl, fun _ => Reads.true⟩, False.elim⟩
  | false => exact ⟨fun _ => ⟨_, rfl, fun _ => Reads.false⟩, False.elim⟩
  | null => exact ⟨fun _ => ⟨_, rfl, fun _ => Reads.null⟩, False.elim⟩

end Forward

section Backward

/-- A hexadecimal number is read as its zero, with an `x` behind it. -/
theorem not_reads_hex (n : UInt32) {x : ℚ} {rest r : List Char} (hr : Delimited r) :
    ¬ Reads ('0' :: 'x' :: Numerals.hex 8 n.toNat ++ rest) (.number x) r := by
  intro h
  rw [List.cons_append, List.cons_append] at h
  generalize ht : '0' :: 'x' :: (Numerals.hex 8 n.toNat ++ rest) = t at h
  cases h with
  | space hs =>
    rw [← (List.cons.inj ht).1] at hs
    simp [JsonText.isSpace] at hs
  | @number _ ds _ _ hds hn =>
    have hzero : ∀ c ∈ ['0'], isNumberChar c := by simp [isNumberChar]
    have hx : ∀ c ∈ ('x' :: (Numerals.hex 8 n.toNat ++ rest)).head?, ¬ isNumberChar c := by
      simp [isNumberChar]
    rw [hds] at ht
    obtain ⟨-, rfl⟩ := span_unique hn.chars hzero hr.not_numberChar hx ht.symm
    exact hr.head_ne (c := 'x') (by simp [JsonText.isSpace]) rfl

/-- Where the text of a tree was written, what denotes the tree is read to the end of the text, and
only from a tree that is printable. -/
def ReadsBack (t : Tree) : Prop :=
  ∀ j rest r, denote t = some j → Delimited rest → Outside rest → Delimited r →
    Reads (snprint t ++ rest) j r → Printable t ∧ r = rest

def MemberReadsBack (t : Tree) : Prop :=
  ∀ m rest r, member t = some m → Delimited rest → Outside rest → Delimited r →
    ReadsMember (snprint t ++ rest) m r → PrintableMember t ∧ r = rest

theorem no_member {t : Tree} (h : member t = none) : MemberReadsBack t := by
  intro m rest r hm
  rw [h] at hm
  cases hm

theorem readsBack_string (s : CString) : ReadsBack (.string s) := by
  intro j rest r hj hrest ho hr h
  cases hj
  rw [snprint, printString_append] at h
  cases h with
  | space hs => simp [JsonText.isSpace] at hs
  | string hchars => exact plain_of_chars hchars ho (hrest.head_ne (by simp [JsonText.isSpace]))

theorem readsBack_number (n : Int32) : ReadsBack (.number n) := by
  intro j rest r hj hrest ho hr h
  cases hj
  exact ⟨trivial, (h.numberText (decimal_numberChar 0 _) (decimal_ne_nil 0 _) hrest hr).2⟩

theorem readsBack_hex (n : Int32) : ReadsBack (.hex n) := by
  intro j rest r hj hrest ho hr h
  cases hj
  exact absurd h (not_reads_hex _ hr)

theorem readsBack_float (n : Int32) : ReadsBack (.float n) := by
  intro j rest r hj hrest ho hr h
  cases hj
  obtain ⟨hn, hr⟩ := h.numberText (printFloat_numberChar _) (printFloat_ne_nil _) hrest hr
  refine ⟨?_, hr⟩
  by_contra hp
  rw [Printable, not_or, Int.not_le] at hp
  exact not_numberText_printFloat hp.1 hp.2 _ hn

theorem memberReadsBack_pair (s : CString) {v : Tree} (hv : ReadsBack v) :
    MemberReadsBack (.pair s v) := by
  intro m rest r hm hrest ho hr h
  rw [member, Option.map_eq_some_iff] at hm
  obtain ⟨j, hj, rfl⟩ := hm
  rw [snprint, List.append_assoc, printString_append, List.cons_append] at h
  generalize ht : '"' :: (s.val ++ '"' :: ':' :: (snprint v ++ rest)) = text at h
  obtain ⟨hcs, hws, hchars, hws', hreads⟩ := h
  rw [hcs] at ht
  obtain ⟨rfl, -, rfl⟩ := spaces_eq_nil hws (by simp [JsonText.isSpace]) ht.symm
  have hout := outside_append (a := [':']) (by simp) (outside_snprint v rest ho)
  obtain ⟨hs, hcolon⟩ := plain_of_chars hchars hout (by simp)
  obtain ⟨-, -, rfl⟩ := spaces_eq_nil hws' (by simp [JsonText.isSpace]) hcolon
  obtain ⟨hp, hr⟩ := hv j rest r hj hrest ho hr hreads
  exact ⟨⟨hs, hp⟩, hr⟩

theorem readsBack_object {s : Slots} (hs : ∀ t ∈ s.toList, MemberReadsBack t) :
    ReadsBack (.object s) := by
  intro j rest r hj hrest ho hr h
  rw [denote, Option.map_eq_some_iff] at hj
  obtain ⟨ms, hms, rfl⟩ := hj
  rw [members_eq] at hms
  rw [snprint, (snprintSlots_eq s).1, List.cons_append, List.append_assoc] at h
  rw [Printable, printableMembers_iff]
  cases h with
  | space hspace => simp [JsonText.isSpace] at hspace
  | emptyObject hcs hws =>
    rw [List.forall₂_nil_right_iff] at hms
    rw [hms] at hcs ⊢
    obtain ⟨-, -, rfl⟩ := spaces_eq_nil hws (by simp [JsonText.isSpace]) hcs.symm
    exact ⟨by simp, rfl⟩
  | object hitems =>
    have hall := (List.forall₂_and_left _ _).mpr ⟨hs, hms⟩
    exact items_back (Or.inr rfl) (hall.imp fun t m hm rest r => hm.1 m rest r hm.2)
      (fun t _ => outside_snprint t) ho hitems

theorem readsBack_array {s : Slots} (hs : ∀ t ∈ s.toList, ReadsBack t) : ReadsBack (.array s) := by
  intro j rest r hj hrest ho hr h
  rw [denote, Option.map_eq_some_iff] at hj
  obtain ⟨js, hjs, rfl⟩ := hj
  rw [elements_eq] at hjs
  rw [snprint, (snprintSlots_eq s).1, List.cons_append, List.append_assoc] at h
  rw [Printable, printableElements_iff]
  cases h with
  | space hspace => simp [JsonText.isSpace] at hspace
  | emptyArray hcs hws =>
    rw [List.forall₂_nil_right_iff] at hjs
    rw [hjs] at hcs ⊢
    obtain ⟨-, -, rfl⟩ := spaces_eq_nil hws (by simp [JsonText.isSpace]) hcs.symm
    exact ⟨by simp, rfl⟩
  | array hitems =>
    have hall := (List.forall₂_and_left _ _).mpr ⟨hs, hjs⟩
    exact items_back (Or.inl rfl) (hall.imp fun t j hj rest r => hj.1 j rest r hj.2)
      (fun t _ => outside_snprint t) ho hitems

theorem readsBack_true : ReadsBack .true := by
  intro j rest r hj hrest ho hr h
  cases hj
  have h : Reads ('t' :: 'r' :: 'u' :: 'e' :: rest) (.bool Bool.true) r := h
  cases h with
  | space hs => simp [JsonText.isSpace] at hs
  | true => exact ⟨trivial, rfl⟩

theorem readsBack_false : ReadsBack .false := by
  intro j rest r hj hrest ho hr h
  cases hj
  have h : Reads ('f' :: 'a' :: 'l' :: 's' :: 'e' :: rest) (.bool Bool.false) r := h
  cases h with
  | space hs => simp [JsonText.isSpace] at hs
  | false => exact ⟨trivial, rfl⟩

theorem readsBack_null : ReadsBack .null := by
  intro j rest r hj hrest ho hr h
  cases hj
  have h : Reads ('n' :: 'u' :: 'l' :: 'l' :: rest) .null r := h
  cases h with
  | space hs => simp [JsonText.isSpace] at hs
  | null => exact ⟨trivial, rfl⟩

theorem readsBack (t : Tree) : ReadsBack t ∧ MemberReadsBack t := by
  induction t using Tree.induct with
  | string s => exact ⟨readsBack_string s, no_member rfl⟩
  | number n => exact ⟨readsBack_number n, no_member rfl⟩
  | hex n => exact ⟨readsBack_hex n, no_member rfl⟩
  | float n => exact ⟨readsBack_float n, no_member rfl⟩
  | pair s v ih =>
    have hpair : ReadsBack (.pair s v) := fun j rest r hj => nomatch hj
    exact ⟨hpair, memberReadsBack_pair s ih.1⟩
  | object s ih => exact ⟨readsBack_object fun t ht => (ih t ht).2, no_member rfl⟩
  | array s ih => exact ⟨readsBack_array fun t ht => (ih t ht).1, no_member rfl⟩
  | true => exact ⟨readsBack_true, no_member rfl⟩
  | false => exact ⟨readsBack_false, no_member rfl⟩
  | null => exact ⟨readsBack_null, no_member rfl⟩

end Backward

theorem Decodes.printable {t : Tree} (h : Decodes t) : Printable t := by
  obtain ⟨j, hj, r, hreads, hr⟩ := h
  have hnil : Delimited [] := by simp [Delimited]
  have hdel : Delimited r := by
    have hend := delimited_spaces hr hnil
    rwa [List.append_nil] at hend
  rw [← List.append_nil (snprint t)] at hreads
  exact ((readsBack t).1 j [] r hj hnil (by simp [Outside]) hdel hreads).1

/-- The text gives the tree back just when it has nothing that `snprint` writes otherwise than JSON. -/
theorem decodes_iff_printable (t : Tree) : Decodes t ↔ Printable t := by
  refine ⟨Decodes.printable, fun h => ?_⟩
  obtain ⟨j, hj, hreads⟩ := (readsOn t).1 h
  refine ⟨j, hj, [], ?_, spaces_nil⟩
  have hread := hreads []
  rwa [List.append_nil] at hread

/-- Half a degree of frost is printed as `0.-50`. -/
theorem temperature_not_decodes :
    createValue ⟨.temperature, true, 0, -50⟩ = some (.float (-50)) ∧ ¬ Decodes (.float (-50)) := by
  refine ⟨rfl, fun h => ?_⟩
  have hp := h.printable
  rw [Printable] at hp
  revert hp
  decide

end EdgeNode.Json
