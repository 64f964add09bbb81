import EdgeNode.Nxjson.Reader
import EdgeNode.Lib.JsonText
import EdgeNode.Lib.Utf8

/-! The strings of JSON, in UTF-8, are read as their characters in UTF-8. -/

namespace EdgeNode.Nxjson.Reader

open JsonText Utf8

section Digits

theorem digit_some {c : Char} {v : Nat} (h : Numerals.digit 16 c = some v) :
    v < 16 ∧ ((48 ≤ c.toNat ∧ c.toNat ≤ 57 ∧ v = c.toNat - 48) ∨
      (97 ≤ c.toNat ∧ c.toNat ≤ 102 ∧ v = c.toNat - 87) ∨
        (65 ≤ c.toNat ∧ c.toNat ≤ 70 ∧ v = c.toNat - 55)) := by
  simp only [Numerals.digit] at h
  split_ifs at h with h09 haf hAF hlt <;> (cases h; omega)

theorem toNat_toUInt8 {c : Char} (h : c.toNat < 128) : c.toUInt8.toNat = c.toNat := by
  have hmod : c.toUInt8.toNat = c.toNat % 256 := rfl
  omega

theorem hexVal_digit {c : Char} {v : Nat} (h : Numerals.digit 16 c = some v) :
    c.toNat < 128 ∧ v < 16 ∧ hexVal c.toUInt8 = some v := by
  obtain ⟨hv, hc⟩ := digit_some h
  have hlt : c.toNat < 128 := by omega
  refine ⟨hlt, hv, ?_⟩
  have hval : ∀ d : Char, d.toNat < 128 → (d.toUInt8 ≤ c.toUInt8 ↔ d.toNat ≤ c.toNat) ∧
      (c.toUInt8 ≤ d.toUInt8 ↔ c.toNat ≤ d.toNat) := by
    intro d hd
    rw [UInt8.le_iff_toNat_le, UInt8.le_iff_toNat_le, toNat_toUInt8 hd, toNat_toUInt8 hlt]
    exact ⟨Iff.rfl, Iff.rfl⟩
  simp only [hexVal, hval '0' (by decide), hval '9' (by decide), hval 'a' (by decide),
    hval 'f' (by decide), hval 'A' (by decide), hval 'F' (by decide), toNat_toUInt8 hlt]
  have h0 : '0'.toNat = 48 := rfl
  have h9 : '9'.toNat = 57 := rfl
  have ha : 'a'.toNat = 97 := rfl
  have hf : 'f'.toNat = 102 := rfl
  have hA : 'A'.toNat = 65 := rfl
  have hF : 'F'.toNat = 70 := rfl
  split_ifs <;> first | omega | (congr 1; omega)

theorem unit_eq {h1 h2 h3 h4 : Nat} (l2 : h2 < 16) (l3 : h3 < 16) (l4 : h4 < 16) :
    unit h1 h2 h3 h4 = 16 * (16 * (16 * h1 + h2) + h3) + h4 := by
  have e3 : h3 <<< 4 ||| h4 = 16 * h3 + h4 := by
    rw [← Nat.shiftLeft_add_eq_or_of_lt (by omega), Nat.shiftLeft_eq]
    omega
  have e2 : h2 <<< 8 ||| (16 * h3 + h4) = 256 * h2 + (16 * h3 + h4) := by
    rw [← Nat.shiftLeft_add_eq_or_of_lt (by omega), Nat.shiftLeft_eq]
    omega
  have e1 : h1 <<< 12 ||| (256 * h2 + (16 * h3 + h4)) = 4096 * h1 + (256 * h2 + (16 * h3 + h4)) := by
    rw [← Nat.shiftLeft_add_eq_or_of_lt (by omega), Nat.shiftLeft_eq]
    omega
  rw [unit, Nat.or_assoc, Nat.or_assoc, e3, e2, e1]
  omega

theorem hex4_digits {hs : List Char} {n : Nat} (h : Hex4 hs n) :
    ∃ a b c e h1 h2 h3 h4, hs = [a, b, c, e] ∧ Numerals.digit 16 a = some h1 ∧
      Numerals.digit 16 b = some h2 ∧ Numerals.digit 16 c = some h3 ∧
      Numerals.digit 16 e = some h4 ∧ n = 16 * (16 * (16 * h1 + h2) + h3) + h4 := by
  obtain ⟨hlen, hdigits, hn⟩ := h
  obtain ⟨a, b, c, e, rfl⟩ : ∃ a b c e, hs = [a, b, c, e] := by
    rcases hs with _ | ⟨a, _ | ⟨b, _ | ⟨c, _ | ⟨e, _ | ⟨f, hs⟩⟩⟩⟩⟩ <;> simp at hlen
    exact ⟨a, b, c, e, rfl⟩
  simp only [List.mem_cons, List.not_mem_nil, or_false, forall_eq_or_imp, forall_eq,
    Option.isSome_iff_exists] at hdigits
  obtain ⟨⟨h1, ha⟩, ⟨h2, hb⟩, ⟨h3, hc⟩, ⟨h4, he⟩⟩ := hdigits
  refine ⟨a, b, c, e, h1, h2, h3, h4, rfl, ha, hb, hc, he, ?_⟩
  simpa [Numerals.scan, ha, hb, hc, he] using hn

/-- Four digits are read as the number that they are in base 16. -/
theorem hex4_hex {hs : List Char} {n : Nat} (h : Hex4 hs n) (cs : List Char) :
    hex4 (encode (hs ++ cs)) = some (n, encode cs) := by
  obtain ⟨a, b, c, e, h1, h2, h3, h4, rfl, ha, hb, hc, he, rfl⟩ := hex4_digits h
  obtain ⟨la, -, va⟩ := hexVal_digit ha
  obtain ⟨lb, l2, vb⟩ := hexVal_digit hb
  obtain ⟨lc, l3, vc⟩ := hexVal_digit hc
  obtain ⟨le, l4, ve⟩ := hexVal_digit he
  simp only [List.cons_append, List.nil_append, encode_ascii la, encode_ascii lb, encode_ascii lc,
    encode_ascii le, hex4, va, vb, vc, ve, Option.bind_eq_bind, Option.bind_some, unit_eq l2 l3 l4]

theorem hex4_lt {hs : List Char} {n : Nat} (h : Hex4 hs n) : n < 0x10000 := by
  obtain ⟨a, b, c, e, h1, h2, h3, h4, -, ha, hb, hc, he, rfl⟩ := hex4_digits h
  have l1 := (digit_some ha).1
  have l2 := (digit_some hb).1
  have l3 := (digit_some hc).1
  have l4 := (digit_some he).1
  omega

end Digits

section Characters

/-- The encoder writes what UTF-8 has for a character. -/
theorem unicodeToUtf8_char (c : Char) : unicodeToUtf8 c.toNat = some (String.utf8EncodeChar c) := by
  have hvalid : c.toNat < 0xD800 ∨ 0xDFFF < c.toNat ∧ c.toNat < 0x110000 := c.valid
  have hbyte : ∀ n m : Nat, n % 256 = m % 256 → UInt8.ofNat n = UInt8.ofNat m := by
    intro n m h
    rw [← UInt8.toNat_inj, UInt8.toNat_ofNat', UInt8.toNat_ofNat']
    exact h
  rw [unicodeToUtf8, encodeChar_eq]
  by_cases h1 : c.toNat < 0x80
  · rw [if_pos h1, if_pos (by omega)]
  rw [if_neg h1, if_neg (by omega : ¬ c.toNat ≤ 0x7f)]
  by_cases h2 : c.toNat < 0x800
  · rw [if_pos h2, if_pos (by omega), hbyte (192 + _) (c.toNat / 64 % 0x20 + 0xc0) (by omega),
      Nat.add_comm 128]
  rw [if_neg h2, if_neg (by omega : ¬ c.toNat ≤ 0x7ff), if_neg (by omega)]
  by_cases h3 : c.toNat < 0x10000
  · rw [if_pos h3, if_pos (by omega), hbyte (224 + _) (c.toNat / 4096 % 0x10 + 0xe0) (by omega),
      Nat.add_comm 128, Nat.add_comm 128]
  · rw [if_neg h3, if_neg (by omega : ¬ c.toNat ≤ 0xffff), if_pos (by omega),
      hbyte (240 + _) (c.toNat / 262144 % 0x08 + 0xf0) (by omega), Nat.add_comm 128,
      Nat.add_comm 128, Nat.add_comm 128]

/-- The mask keeps six bits of sixteen. -/
theorem and_mask {n : Nat} (hn : n < 0x10000) : n &&& 0xfc00 = n / 1024 * 1024 := by
  have hlow : n = (n / 1024) <<< 10 ||| n % 1024 := by
    rw [← Nat.shiftLeft_add_eq_or_of_lt (by omega), Nat.shiftLeft_eq]
    omega
  have hmask : n &&& 0xfc00 = (n >>> 10 &&& 0x3f) <<< 10 := by
    refine Nat.eq_of_testBit_eq fun i => ?_
    have hbits : (0xfc00 : Nat) = 0x3f <<< 10 := rfl
    rw [hbits]
    simp only [Nat.testBit_and, Nat.testBit_shiftLeft, Nat.testBit_shiftRight]
    by_cases hi : 10 ≤ i
    · simp [hi]
    · simp [hi]
  have h3f : (0x3f : Nat) = 2 ^ 6 - 1 := rfl
  rw [hmask, h3f, Nat.and_two_pow_sub_one_eq_mod, Nat.shiftRight_eq_div_pow, Nat.shiftLeft_eq]
  omega

theorem isHigh_iff {n : Nat} (hn : n < 0x10000) : isHigh n = true ↔ 0xD800 ≤ n ∧ n < 0xDC00 := by
  rw [isHigh, decide_eq_true_iff, and_mask hn]
  omega

theorem isLow_iff {n : Nat} (hn : n < 0x10000) : isLow n = true ↔ 0xDC00 ≤ n ∧ n < 0xE000 := by
  rw [isLow, decide_eq_true_iff, and_mask hn]
  omega

theorem codepoint_unit {hs : List Char} {c : Char} (h : Hex4 hs c.toNat) (cs : List Char) :
    codepoint (encode (hs ++ cs)) = some (c.toNat, encode cs) := by
  have hvalid : c.toNat < 0xD800 ∨ 0xDFFF < c.toNat ∧ c.toNat < 0x110000 := c.valid
  rw [codepoint, hex4_hex h, Option.bind_eq_bind, Option.bind_some]
  dsimp only
  rw [if_neg]
  rw [isHigh_iff (hex4_lt h)]
  omega

theorem codepoint_pair {hs ls : List Char} {h l n : Nat} (hh : Hex4 hs h) (hl : Hex4 ls l)
    (h1 : 0xD800 ≤ h) (h2 : h < 0xDC00) (l1 : 0xDC00 ≤ l) (l2 : l < 0xE000)
    (hn : n = 0x10000 + (h - 0xD800) * 0x400 + (l - 0xDC00)) (cs : List Char) :
    codepoint (encode (hs ++ '\\' :: 'u' :: (ls ++ cs))) = some (n, encode cs) := by
  have hjoin : joined h l = n := by
    have hshift := Nat.shiftLeft_eq (h - 0xD800) 10
    unfold joined
    omega
  rw [codepoint, hex4_hex hh, Option.bind_eq_bind, Option.bind_some]
  dsimp only
  rw [if_pos ((isHigh_iff (hex4_lt hh)).mpr ⟨h1, h2⟩), encode_ascii (by decide),
    encode_ascii (by decide), List.headD_cons, List.tail_cons, List.headD_cons, if_pos ⟨rfl, rfl⟩,
    List.tail_cons, hex4_hex hl, Option.bind_some]
  dsimp only
  rw [if_pos ((isLow_iff (hex4_lt hl)).mpr ⟨l1, l2⟩), hjoin]

end Characters

section Strings

theorem unescape_copy {bs t : List UInt8} (h : ∀ b ∈ bs, b ≠ '"'.toUInt8 ∧ b ≠ '\\'.toUInt8) :
    unescape true (bs ++ t) = emit bs (unescape true t) := by
  induction bs with
  | nil => simp [emit]
  | cons b bs ih =>
    obtain ⟨hquote, hslash⟩ := h b List.mem_cons_self
    rw [List.cons_append, unescape, if_neg hquote, if_neg hslash,
      ih fun c hc => h c (List.mem_cons_of_mem b hc)]
    simp [emit, Function.comp_def]

theorem unescape_escaped {e b : UInt8} (h : escaped e = some b) (t : List UInt8) :
    unescape true ('\\'.toUInt8 :: e :: t) = emit [b] (unescape true t) := by
  rw [unescape, if_neg (by decide), if_pos rfl, List.headD_cons, h, List.tail_cons]

theorem unescape_unit {t rest : List UInt8} {c : Char} (h : codepoint t = some (c.toNat, rest)) :
    unescape true ('\\'.toUInt8 :: 'u'.toUInt8 :: t) =
      emit (String.utf8EncodeChar c) (unescape true rest) := by
  rw [unescape_codepoint, h, Option.bind_some, unicodeToUtf8_char, Option.bind_some]

/-- An escape is read as its character. -/
theorem unescape_escape {e : List Char} {c : Char} (h : Escape e c) (cs : List Char) :
    unescape true (encode ('\\' :: (e ++ cs))) =
      emit (String.utf8EncodeChar c) (unescape true (encode cs)) := by
  rw [encode_ascii (by decide)]
  cases h with
  | quote =>
    rw [List.singleton_append, encode_ascii (by decide), unescape_escaped rfl]
    rfl
  | @short e c hm =>
    have hshort : ∀ p ∈ [('\\', '\\'), ('/', '/'), ('b', '\x08'), ('f', '\x0c'), ('n', '\n'),
        ('r', '\r'), ('t', '\t')], p.1.toNat < 128 ∧
          escaped p.1.toUInt8 = some p.2.toUInt8 ∧ p.2.toNat < 128 := forall_mem_of_all (by decide)
    obtain ⟨he, hesc, hc⟩ := hshort (e, c) hm
    rw [List.singleton_append, encode_ascii he, unescape_escaped hesc, encodeChar_ascii hc]
  | unit hh =>
    rw [List.cons_append, encode_ascii (by decide)]
    exact unescape_unit (codepoint_unit hh cs)
  | @pair hs ls h l c hh hl h1 h2 l1 l2 hc =>
    rw [List.cons_append, encode_ascii (by decide), List.append_assoc, List.cons_append,
      List.cons_append]
    exact unescape_unit (codepoint_pair hh hl h1 h2 l1 l2 hc cs)

/-- No byte of a character that stands for itself is a quote or a backslash. -/
theorem plain_bytes {c : Char} (hquote : c ≠ '"') (hslash : c ≠ '\\') :
    ∀ b ∈ String.utf8EncodeChar c, b ≠ '"'.toUInt8 ∧ b ≠ '\\'.toUInt8 := by
  intro b hb
  by_cases hc : c.toNat < 128
  · rw [encodeChar_ascii hc, List.mem_singleton] at hb
    subst hb
    have hne : ∀ d : Char, d.toNat < 128 → c ≠ d → c.toUInt8 ≠ d.toUInt8 := by
      intro d hd hcd h
      have hnat := congrArg UInt8.toNat h
      rw [toNat_toUInt8 hc, toNat_toUInt8 hd] at hnat
      exact hcd (Char.toNat_inj.mp hnat)
    exact ⟨hne '"' (by decide) hquote, hne '\\' (by decide) hslash⟩
  · have hge := encodeChar_ge (Nat.le_of_not_lt hc) b hb
    refine ⟨?_, ?_⟩
    · rintro rfl
      exact absurd hge (by decide)
    · rintro rfl
      exact absurd hge (by decide)

/-- The characters of a string are read up to its closing quote. -/
theorem unescape_chars {cs s rest : List Char} (h : Chars cs s rest) :
    unescape true (encode cs) = some (encode s, encode rest) := by
  induction h with
  | @close rest =>
    rw [encode_ascii (by decide), unescape, if_pos rfl]
    rfl
  | @char c cs s rest _ hquote hslash _ ih =>
    rw [encode_cons, unescape_copy (plain_bytes hquote hslash), ih]
    rfl
  | @escape e c t cs s rest ht he _ ih =>
    rw [ht, unescape_escape he, ih]
    rfl

end Strings

end EdgeNode.Nxjson.Reader
