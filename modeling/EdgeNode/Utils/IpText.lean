import EdgeNode.Utils.HexText

/-! Internet addresses from text. -/

namespace EdgeNode.Utils

open CString

def isDigit (c : UInt8) : Bool := 48 ≤ c ∧ c ≤ 57

def dot : UInt8 := 46

/-- The loop of `FTE_strToIP` from position `i` on: what is left of the string behind it, `index` and
`nNum`; without a value where the loop returns. -/
def readNumbers : List UInt8 → Nat → Nat → List UInt32 → Option (List UInt8 × Nat × List UInt32)
  | [], _, index, nNum => some ([], index, nNum)
  | c :: cs, i, index, nNum =>
    if i < 16 ∧ index < 4 then
      if isDigit c then readNumbers cs (i + 1) index (nNum.modify index fun n => n * 10 + c.toUInt32 - 48)
      else if c = dot then readNumbers cs (i + 1) (index + 1) nNum
      else none
    else some (c :: cs, index, nNum)

/-- The numbers put together in `nTemp`. -/
def combine (nNum : List UInt32) : UInt32 := nNum.foldl (fun nTemp n => (nTemp <<< 8) ||| n) 0

/-- `FTE_strToIP`: its result and what it leaves in `*pIP`. -/
def strToIP (pIPString : Text) (pIP : UInt32) : Ret × UInt32 :=
  match readNumbers pIPString.val 0 0 [0, 0, 0, 0] with
  | none => (retInvalidArgument, pIP)
  | some (rest, index, nNum) =>
    if rest = [] ∧ index = 3 then
      if nNum.any fun n => n > 255 then (retInvalidArgument, pIP)
      else (retOk, combine nNum)
    else (retOk, 0)

section Quads

/-- The number that decimal digits stand for. -/
def decimal (s : List UInt8) : Nat := s.foldl (fun n c => n * 10 + (c.toNat - 48)) 0

def Numeral (s : List UInt8) : Prop := s ≠ [] ∧ (∀ c ∈ s, isDigit c) ∧ decimal s ≤ 255

/-- Four numbers up to 255 with single dots between them. -/
structure Quad (s a b c d : List UInt8) : Prop where
  text : s = a ++ dot :: (b ++ dot :: (c ++ dot :: d))
  first : Numeral a
  second : Numeral b
  third : Numeral c
  fourth : Numeral d

def bigEndian (a b c d : Nat) : Nat := a * 2 ^ 24 + b * 2 ^ 16 + c * 2 ^ 8 + d

/-- The string is accepted if it is a quad and only then, and the address is that of the quad. -/
structure Parses (s : Text) (pIP : UInt32) : Prop where
  accepts : (strToIP s pIP).1 = retOk ↔ ∃ a b c d, Quad s.val a b c d
  address : ∀ a b c d, Quad s.val a b c d → (strToIP s pIP).1 = retOk →
    (strToIP s pIP).2.toNat = bigEndian (decimal a) (decimal b) (decimal c) (decimal d)

/-- A character that is neither a digit nor a dot, among the first sixteen and before a fourth dot. -/
def Stray (s : List UInt8) : Prop :=
  ∃ pre c post, s = pre ++ c :: post ∧ isDigit c = false ∧ c ≠ dot ∧ pre.length < 16 ∧
    pre.count dot ≤ 3

/-- Four fields of digits, perhaps empty, with single dots between them. -/
structure Fields (s a b c d : List UInt8) : Prop where
  text : s = a ++ dot :: (b ++ dot :: (c ++ dot :: d))
  digits : ∀ f ∈ [a, b, c, d], ∀ x ∈ f, isDigit x

/-- Four fields of which one as a word is more than 255. -/
def TooBig (s : List UInt8) : Prop :=
  ∃ a b c d, Fields s a b c d ∧ ∃ f ∈ [a, b, c, d], 255 < decimal f % 2 ^ 32

end Quads

section Scan

variable {s : List UInt8} {i index : Nat} {nNum : List UInt32}

theorem isDigit_dot : isDigit dot = false := by decide

/-- The loop returns at a stray character within its reach. -/
theorem readNumbers_eq_none : readNumbers s i index nNum = none ↔
    ∃ pre c post, s = pre ++ c :: post ∧ isDigit c = false ∧ c ≠ dot ∧ i + pre.length < 16 ∧
      index + pre.count dot ≤ 3 := by
  induction s generalizing i index nNum with
  | nil => simp [readNumbers]
  | cons x xs ih =>
    have hsplit : ∀ (P : List UInt8 → UInt8 → Prop),
        (∃ pre c post, x :: xs = pre ++ c :: post ∧ P pre c) ↔
          P [] x ∨ ∃ pre c post, xs = pre ++ c :: post ∧ P (x :: pre) c := by
      intro P
      constructor
      · rintro ⟨pre, c, post, heq, hP⟩
        cases pre with
        | nil =>
          cases heq
          exact .inl hP
        | cons y ys =>
          cases heq
          exact .inr ⟨ys, c, post, rfl, hP⟩
      · rintro (hP | ⟨pre, c, post, rfl, hP⟩)
        · exact ⟨[], x, xs, rfl, hP⟩
        · exact ⟨x :: pre, c, post, rfl, hP⟩
    rw [hsplit fun pre c => isDigit c = false ∧ c ≠ dot ∧ i + pre.length < 16 ∧
      index + pre.count dot ≤ 3, readNumbers]
    by_cases hin : i < 16 ∧ index < 4
    · rw [if_pos hin]
      by_cases hd : isDigit x = true
      · have hx : x ≠ dot := by
          rintro rfl
          exact absurd hd (by decide)
        rw [if_pos hd, ih]
        simp only [hd, reduceCtorEq, false_and, false_or, List.length_cons,
          List.count_cons_of_ne hx, Nat.add_right_comm i 1, ← Nat.add_assoc]
      · by_cases hx : x = dot
        · subst hx
          rw [if_neg hd, if_pos rfl, ih]
          simp only [ne_eq, not_true_eq_false, false_and, and_false, false_or, List.length_cons,
            List.count_cons_self, Nat.add_right_comm _ 1, ← Nat.add_assoc]
        · rw [if_neg hd, if_neg hx]
          apply iff_of_true rfl
          have hfalse : isDigit x = false := by simpa using hd
          exact .inl ⟨hfalse, hx, hin.1, Nat.lt_succ_iff.mp hin.2⟩
    · rw [if_neg hin]
      apply iff_of_false (Option.some_ne_none _)
      rintro (⟨-, -, hi, hindex⟩ | ⟨pre, c, post, -, -, -, hi, hindex⟩)
      · exact hin ⟨hi, Nat.lt_succ_iff.mpr hindex⟩
      · rw [List.length_cons] at hi
        exact hin ⟨by omega, by omega⟩

/-- Where the loop reads the whole string and stops in the fourth field, it has met digits and three
dots among at most sixteen characters. -/
theorem readNumbers_eq_end {m : List UInt32} (hi : i ≤ 16)
    (h : readNumbers s i index nNum = some ([], 3, m)) :
    i + s.length ≤ 16 ∧ index + s.count dot = 3 ∧ ∀ x ∈ s, isDigit x ∨ x = dot := by
  induction s generalizing i index nNum with
  | nil =>
    rw [readNumbers, Option.some.injEq, Prod.mk.injEq, Prod.mk.injEq] at h
    exact ⟨hi, h.2.1, fun x hx => absurd hx List.not_mem_nil⟩
  | cons x xs ih =>
    rw [readNumbers] at h
    split at h
    next hin =>
      rw [List.length_cons]
      split at h
      next hd =>
        have hx : x ≠ dot := by
          rintro rfl
          exact absurd hd (by decide)
        obtain ⟨hlen, hcount, hall⟩ := ih hin.1 h
        rw [List.count_cons_of_ne hx]
        exact ⟨by omega, hcount, List.forall_mem_cons.mpr ⟨.inl hd, hall⟩⟩
      next =>
        split at h
        next hx =>
          obtain ⟨hlen, hcount, hall⟩ := ih hin.1 h
          rw [hx, List.count_cons_self]
          exact ⟨by omega, by omega, List.forall_mem_cons.mpr ⟨.inr rfl, hall⟩⟩
        next => cases h
    next =>
      rw [Option.some.injEq, Prod.mk.injEq] at h
      cases h.1

/-- Digits are read into one number. -/
theorem readNumbers_digits (rest : List UInt8) (hs : ∀ x ∈ s, isDigit x) (hi : i + s.length ≤ 16)
    (hindex : index < 4) : readNumbers (s ++ rest) i index nNum =
      readNumbers rest (i + s.length) index
        (nNum.modify index fun n => s.foldl (fun n c => n * 10 + c.toUInt32 - 48) n) := by
  induction s generalizing i nNum with
  | nil =>
    have hid : nNum.modify index (fun n => n) = nNum := List.modify_id index nNum
    rw [List.nil_append, List.length_nil, Nat.add_zero]
    simp only [List.foldl_nil, hid]
  | cons x xs ih =>
    have hin : i < 16 ∧ index < 4 := by
      rw [List.length_cons] at hi
      exact ⟨by omega, hindex⟩
    have hx : isDigit x = true := hs x List.mem_cons_self
    rw [List.cons_append, readNumbers, if_pos hin, if_pos hx,
      ih (fun y hy => hs y (List.mem_cons_of_mem x hy)) (by rw [List.length_cons] at hi; omega),
      List.modify_modify_eq]
    rw [List.length_cons, Nat.add_assoc, Nat.add_comm 1]
    rfl

theorem readNumbers_dot (rest : List UInt8) (hi : i < 16) (hindex : index < 4) :
    readNumbers (dot :: rest) i index nNum = readNumbers rest (i + 1) (index + 1) nNum := by
  rw [readNumbers, if_pos ⟨hi, hindex⟩, isDigit_dot, if_neg Bool.false_ne_true, if_pos rfl]

end Scan

section Words

/-- The number that digits are read into. -/
def word (s : List UInt8) : UInt32 := s.foldl (fun n c => n * 10 + c.toUInt32 - 48) 0

theorem word_toNat {s : List UInt8} (hs : ∀ x ∈ s, isDigit x) : (word s).toNat = decimal s % 2 ^ 32 := by
  have hfold : ∀ (n : UInt32) (k : Nat), n.toNat = k % 2 ^ 32 →
      (s.foldl (fun n c => n * 10 + c.toUInt32 - 48) n).toNat =
        s.foldl (fun n c => n * 10 + (c.toNat - 48)) k % 2 ^ 32 := by
    induction s with
    | nil => exact fun n k h => h
    | cons x xs ih =>
      intro n k h
      apply ih fun y hy => hs y (List.mem_cons_of_mem x hy)
      have hx : 48 ≤ x.toNat ∧ x.toNat ≤ 57 := by
        have hdigit := hs x List.mem_cons_self
        rw [isDigit, decide_eq_true_eq, UInt8.le_iff_toNat_le, UInt8.le_iff_toNat_le] at hdigit
        exact hdigit
      rw [UInt32.toNat_sub, UInt32.toNat_add, UInt32.toNat_mul, h, UInt8.toNat_toUInt32]
      have hten : (10 : UInt32).toNat = 10 := rfl
      have hzero : (48 : UInt32).toNat = 48 := rfl
      rw [hten, hzero]
      dsimp only
      omega
  exact hfold 0 0 rfl

theorem append_byte_toNat {n m : UInt32} (hn : n.toNat < 2 ^ 24) (hm : m.toNat ≤ 255) :
    ((n <<< 8) ||| m).toNat = n.toNat * 256 + m.toNat := by
  have hlow : m.toNat < 2 ^ 8 := by omega
  have hfit : n.toNat <<< 8 < 2 ^ 32 := by
    rw [Nat.shiftLeft_eq]
    omega
  have hshift : (n <<< 8).toNat = n.toNat <<< 8 := by
    rw [UInt32.toNat_shiftLeft]
    exact Nat.mod_eq_of_lt hfit
  rw [UInt32.toNat_or, hshift, ← Nat.shiftLeft_add_eq_or_of_lt hlow, Nat.shiftLeft_eq]

theorem combine_toNat {a b c d : UInt32} (ha : a.toNat ≤ 255) (hb : b.toNat ≤ 255)
    (hc : c.toNat ≤ 255) (hd : d.toNat ≤ 255) :
    (combine [a, b, c, d]).toNat = bigEndian a.toNat b.toNat c.toNat d.toNat := by
  have h1 : (combine [a]).toNat = a.toNat := by
    have happ := append_byte_toNat (n := 0) (by decide) ha
    rw [UInt32.toNat_zero, Nat.zero_mul, Nat.zero_add] at happ
    exact happ
  have h2 : (combine [a, b]).toNat = a.toNat * 256 + b.toNat := by
    have happ := append_byte_toNat (n := combine [a]) (by omega) hb
    rwa [h1] at happ
  have h3 : (combine [a, b, c]).toNat = (a.toNat * 256 + b.toNat) * 256 + c.toNat := by
    have happ := append_byte_toNat (n := combine [a, b]) (by omega) hc
    rwa [h2] at happ
  have h4 := append_byte_toNat (n := combine [a, b, c]) (by omega) hd
  rw [h3] at h4
  rw [bigEndian]
  apply h4.trans
  omega

end Words

section Results

variable {s : Text} {a b c d : List UInt8} {pIP : UInt32}

theorem Quad.fields {s : List UInt8} (h : Quad s a b c d) : Fields s a b c d := by
  refine ⟨h.text, ?_⟩
  simp only [List.forall_mem_cons, List.not_mem_nil, false_implies, implies_true, and_true]
  exact ⟨h.first.2.1, h.second.2.1, h.third.2.1, h.fourth.2.1⟩

theorem readNumbers_fields {s : List UInt8} (h : Fields s a b c d) (hlen : s.length ≤ 16) :
    readNumbers s 0 0 [0, 0, 0, 0] = some ([], 3, [word a, word b, word c, word d]) := by
  obtain ⟨rfl, hdigits⟩ := h
  simp only [List.forall_mem_cons, List.not_mem_nil, false_implies, implies_true, and_true] at hdigits
  obtain ⟨ha, hb, hc, hd⟩ := hdigits
  simp only [List.length_append, List.length_cons] at hlen
  rw [readNumbers_digits _ ha (by omega) (by decide), readNumbers_dot _ (by omega) (by decide),
    readNumbers_digits _ hb (by omega) (by decide), readNumbers_dot _ (by omega) (by decide),
    readNumbers_digits _ hc (by omega) (by decide), readNumbers_dot _ (by omega) (by decide),
    ← List.append_nil d, readNumbers_digits _ hd (by omega) (by decide), List.append_nil]
  rfl

/-- Digits and three dots are four fields. -/
theorem exists_fields {s : List UInt8} (hcount : s.count dot = 3)
    (hall : ∀ x ∈ s, isDigit x ∨ x = dot) : ∃ a b c d, Fields s a b c d := by
  have hcut : ∀ {l : List UInt8} {n : Nat}, l.count dot = n + 1 → (∀ x ∈ l, isDigit x ∨ x = dot) →
      ∃ f r, l = f ++ dot :: r ∧ (∀ x ∈ f, isDigit x) ∧ r.count dot = n ∧
        ∀ x ∈ r, isDigit x ∨ x = dot := by
    intro l n hn hl
    have hmem : dot ∈ l := List.count_pos_iff.mp (by omega)
    obtain ⟨f, r, rfl, hf⟩ := List.eq_append_cons_of_mem hmem
    rw [List.count_append, List.count_eq_zero.mpr hf, List.count_cons_self] at hn
    refine ⟨f, r, rfl, fun x hx => ?_, by omega, fun x hx => hl x (by simp [hx])⟩
    obtain hd | rfl := hl x (List.mem_append_left _ hx)
    · exact hd
    · exact absurd hx hf
  obtain ⟨a, r, rfl, ha, hr, hallr⟩ := hcut hcount hall
  obtain ⟨b, t, rfl, hb, ht, hallt⟩ := hcut hr hallr
  obtain ⟨c, d, rfl, hc, hd, halld⟩ := hcut ht hallt
  refine ⟨a, b, c, d, rfl, ?_⟩
  simp only [List.forall_mem_cons, List.not_mem_nil, false_implies, implies_true, and_true]
  refine ⟨ha, hb, hc, fun x hx => ?_⟩
  obtain hdig | rfl := halld x hx
  · exact hdig
  · exact absurd hx (List.count_eq_zero.mp hd)

theorem strToIP_stray (h : Stray s.val) : strToIP s pIP = (retInvalidArgument, pIP) := by
  obtain ⟨pre, c, post, heq, hd, hc, hlen, hcount⟩ := h
  have hnone : readNumbers s.val 0 0 [0, 0, 0, 0] = none :=
    readNumbers_eq_none.mpr ⟨pre, c, post, heq, hd, hc, by omega, by omega⟩
  rw [strToIP, hnone]

theorem strToIP_fields (h : Fields s.val a b c d) (hlen : s.val.length ≤ 16) : strToIP s pIP =
    if [word a, word b, word c, word d].any fun n => n > 255 then (retInvalidArgument, pIP)
    else (retOk, combine [word a, word b, word c, word d]) := by
  rw [strToIP, readNumbers_fields h hlen]
  exact if_pos ⟨rfl, rfl⟩

/-- Four fields are refused for a number that is too big as a word. -/
theorem strToIP_fields_refused (h : Fields s.val a b c d) (hlen : s.val.length ≤ 16) :
    (strToIP s pIP).1 ≠ retOk ↔ ∃ f ∈ [a, b, c, d], 255 < decimal f % 2 ^ 32 := by
  have hany : (([word a, word b, word c, word d].any fun n => n > 255) = true) ↔
      ∃ f ∈ [a, b, c, d], 255 < decimal f % 2 ^ 32 := by
    have hmap : [word a, word b, word c, word d] = [a, b, c, d].map word := rfl
    rw [hmap, List.any_map, List.any_eq_true]
    refine exists_congr fun f => and_congr_right fun hf => ?_
    rw [Function.comp_apply, decide_eq_true_eq, gt_iff_lt, UInt32.lt_iff_toNat_lt,
      word_toNat (h.digits f hf)]
    rfl
  rw [strToIP_fields h hlen, ← hany]
  have hinvalid : retInvalidArgument ≠ retOk := by decide
  by_cases hbig : ([word a, word b, word c, word d].any fun n => n > 255) = true
  · rw [if_pos hbig]
    exact iff_of_true hinvalid hbig
  · rw [if_neg hbig]
    exact iff_of_false (not_not_intro rfl) hbig

/-- Everything else is accepted, as the address zero. -/
theorem strToIP_other (hstray : ¬ Stray s.val)
    (hfields : ∀ a b c d, Fields s.val a b c d → 16 < s.val.length) :
    strToIP s pIP = (retOk, 0) := by
  rw [strToIP]
  match hread : readNumbers s.val 0 0 [0, 0, 0, 0] with
  | none =>
    obtain ⟨pre, c, post, heq, hd, hc, hlen, hcount⟩ := readNumbers_eq_none.mp hread
    exact absurd ⟨pre, c, post, heq, hd, hc, by omega, by omega⟩ hstray
  | some (rest, index, nNum) =>
    apply if_neg
    rintro ⟨rfl, rfl⟩
    obtain ⟨hlen, hcount, hall⟩ := readNumbers_eq_end (Nat.zero_le 16) hread
    obtain ⟨a, b, c, d, h⟩ := exists_fields (by omega) hall
    have hlong := hfields a b c d h
    omega

theorem Fields.not_stray {s : List UInt8} (h : Fields s a b c d) : ¬ Stray s := by
  rintro ⟨pre, x, post, heq, hd, hx, -, -⟩
  have hmem : x ∈ a ++ dot :: (b ++ dot :: (c ++ dot :: d)) := by
    rw [← h.text, heq]
    simp
  simp only [List.mem_append, List.mem_cons, hx, false_or] at hmem
  have hdigits := h.digits
  simp only [List.forall_mem_cons, List.not_mem_nil, false_implies, implies_true, and_true] at hdigits
  have hdigit : isDigit x = true := by
    obtain h | h | h | h := hmem
    · exact hdigits.1 x h
    · exact hdigits.2.1 x h
    · exact hdigits.2.2.1 x h
    · exact hdigits.2.2.2 x h
  rw [hd] at hdigit
  cases hdigit

/-- A quad of at most sixteen characters is read as its address. -/
theorem strToIP_quad (h : Quad s.val a b c d) (hlen : s.val.length ≤ 16) :
    ∃ n, strToIP s pIP = (retOk, n) ∧
      n.toNat = bigEndian (decimal a) (decimal b) (decimal c) (decimal d) := by
  have hword : ∀ {f : List UInt8}, Numeral f → (word f).toNat = decimal f := by
    intro f hf
    have hle := hf.2.2
    rw [word_toNat hf.2.1]
    exact Nat.mod_eq_of_lt (by omega)
  have hsmall : ([word a, word b, word c, word d].any fun n => n > 255) = false := by
    have hle : ∀ {f : List UInt8}, Numeral f → ¬ word f > 255 := by
      intro f hf hgt
      have hlt : 255 < (word f).toNat := hgt
      have hle := hf.2.2
      rw [hword hf] at hlt
      omega
    simp [hle h.first, hle h.second, hle h.third, hle h.fourth]
  have hbound : ∀ {f : List UInt8}, Numeral f → (word f).toNat ≤ 255 :=
    fun hf => (hword hf).symm ▸ hf.2.2
  refine ⟨combine [word a, word b, word c, word d], ?_, ?_⟩
  · rw [strToIP_fields h.fields hlen, hsmall]
    rfl
  · rw [combine_toNat (hbound h.first) (hbound h.second) (hbound h.third) (hbound h.fourth),
      hword h.first, hword h.second, hword h.third, hword h.fourth]

/-- The strings that are refused. -/
theorem strToIP_refused_iff : (strToIP s pIP).1 ≠ retOk ↔
    Stray s.val ∨ (s.val.length ≤ 16 ∧ TooBig s.val) := by
  have hinvalid : retInvalidArgument ≠ retOk := by decide
  by_cases hstray : Stray s.val
  · rw [strToIP_stray hstray]
    exact iff_of_true hinvalid (.inl hstray)
  · by_cases hfields : ∃ a b c d, Fields s.val a b c d ∧ s.val.length ≤ 16
    · obtain ⟨a, b, c, d, h, hlen⟩ := hfields
      constructor
      · exact fun hne => .inr ⟨hlen, a, b, c, d, h, (strToIP_fields_refused h hlen).mp hne⟩
      · rintro (hs | ⟨-, a, b, c, d, h, hbig⟩)
        · exact absurd hs hstray
        · exact (strToIP_fields_refused h hlen).mpr hbig
    · have hrun : strToIP s pIP = (retOk, 0) := by
        apply strToIP_other hstray
        intro a b c d h
        by_contra hle
        exact hfields ⟨a, b, c, d, h, Nat.le_of_not_lt hle⟩
      apply iff_of_false
      · rw [hrun]
        exact not_not_intro rfl
      · rintro (h | ⟨hlen, a, b, c, d, h, -⟩)
        · exact hstray h
        · exact hfields ⟨a, b, c, d, h, hlen⟩

theorem parses_short (hquad : ∃ a b c d, Quad s.val a b c d) (hlen : s.val.length ≤ 16) :
    Parses s pIP := by
  refine ⟨iff_of_true ?_ hquad, fun a b c d h _ => ?_⟩
  · obtain ⟨a, b, c, d, h⟩ := hquad
    obtain ⟨n, hrun, -⟩ := strToIP_quad h hlen
    rw [hrun]
  · obtain ⟨n, hrun, hn⟩ := strToIP_quad h hlen
    rw [hrun, hn]

/-- A longer quad is read as zero. -/
theorem parses_long_iff (hquad : ∃ a b c d, Quad s.val a b c d) (hlen : 16 < s.val.length) :
    Parses s pIP ↔ ∀ a b c d, Quad s.val a b c d →
      bigEndian (decimal a) (decimal b) (decimal c) (decimal d) = 0 := by
  have hrun : strToIP s pIP = (retOk, 0) := by
    obtain ⟨a, b, c, d, h⟩ := hquad
    exact strToIP_other h.fields.not_stray fun _ _ _ _ _ => hlen
  constructor
  · intro h a b c d hq
    have haddr := h.address a b c d hq
    rw [hrun] at haddr
    exact (haddr rfl).symm
  · intro hzero
    refine ⟨iff_of_true (by rw [hrun]) hquad, fun a b c d hq _ => ?_⟩
    rw [hrun, hzero a b c d hq]
    rfl

theorem parses_other_iff (hquad : ¬ ∃ a b c d, Quad s.val a b c d) :
    Parses s pIP ↔ Stray s.val ∨ (s.val.length ≤ 16 ∧ TooBig s.val) := by
  rw [← @strToIP_refused_iff s pIP]
  constructor
  · exact fun h hok => hquad (h.accepts.mp hok)
  · exact fun h => ⟨iff_of_false h hquad, fun a b c d hq => absurd ⟨a, b, c, d, hq⟩ hquad⟩

/-- No quad is refused, but one of more than sixteen characters is read as zero; of the other strings
those are refused that have a stray character within reach, or four fields in sixteen characters with
a number that is too big. -/
theorem parses_iff : Parses s pIP ↔
    (∀ a b c d, Quad s.val a b c d →
      s.val.length ≤ 16 ∨ bigEndian (decimal a) (decimal b) (decimal c) (decimal d) = 0) ∧
    ((¬ ∃ a b c d, Quad s.val a b c d) → Stray s.val ∨ (s.val.length ≤ 16 ∧ TooBig s.val)) := by
  by_cases hquad : ∃ a b c d, Quad s.val a b c d
  · by_cases hlen : s.val.length ≤ 16
    · apply iff_of_true (parses_short hquad hlen)
      exact ⟨fun _ _ _ _ _ => .inl hlen, fun hno => absurd hquad hno⟩
    · rw [parses_long_iff hquad (Nat.lt_of_not_le hlen)]
      constructor
      · exact fun hzero => ⟨fun a b c d hq => .inr (hzero a b c d hq), fun hno => absurd hquad hno⟩
      · exact fun h a b c d hq => (h.1 a b c d hq).resolve_left hlen
  · rw [parses_other_iff hquad]
    constructor
    · exact fun h => ⟨fun a b c d hq => absurd ⟨a, b, c, d, hq⟩ hquad, fun _ => h⟩
    · exact fun h => h.2 hquad

/-- The empty string is accepted. -/
theorem parses_empty : ¬ Parses ⟨[], by decide⟩ 1 := by
  intro h
  obtain ⟨a, b, c, d, hq⟩ := h.accepts.mp (by decide)
  have htext := hq.text
  simp at htext

end Results

end EdgeNode.Utils
