import EdgeNode.Lib.Words
import Mathlib.Data.List.Basic
import Mathlib.Tactic.Common

/-! Text printed piece by piece into a buffer, every piece by an `snprintf` behind the last one into
the length that is left. Offsets and sizes are words. -/

namespace Snprintf

/-- The characters written, at their offsets in the buffer, and the length returned. -/
structure Printed where
  writes : List (UInt32 × Char)
  nLen : Int32
deriving DecidableEq

/-- Characters in a row from an offset on. -/
def place : UInt32 → List Char → List (UInt32 × Char)
  | _, [] => []
  | p, c :: cs => (p, c) :: place (p + 1) cs

/-- The length is taken as a `size_t`; what does not fit before the terminator is left out, and the
length of the whole text returned. -/
def snprintf (text : List Char) (p : UInt32) (n : Int32) : Printed where
  writes :=
    if n.toUInt32 = 0 then [] else place p (text.take (n.toUInt32.toNat - 1) ++ ['\x00'])
  nLen := Int32.ofNat text.length

/-- What is printed next goes behind what is there: `nLen += print(&pBuff[nLen], nBuffLen - nLen)`. -/
def Printed.append (r : Printed) (p : UInt32) (n : Int32) (print : UInt32 → Int32 → Printed) :
    Printed :=
  let next := print (p + r.nLen.toUInt32) (n - r.nLen)
  { writes := r.writes ++ next.writes, nLen := r.nLen + next.nLen }

def printAll : List (List Char) → UInt32 → Int32 → Printed
  | [], _, _ => { writes := [], nLen := 0 }
  | text :: texts, p, n => (snprintf text p n).append p n (printAll texts)

/-- The offsets at which the pieces start. -/
def starts : UInt32 → List (List Char) → List UInt32
  | _, [] => []
  | p, text :: texts => p :: starts (p + UInt32.ofNat text.length) texts

/-- The buffer after the writes. -/
def store (buf : List Char) (writes : List (UInt32 × Char)) : List Char :=
  writes.foldl (fun buf w => buf.set w.1.toNat w.2) buf

section Pieces

theorem append_nil (r : Printed) (p : UInt32) (n : Int32) : r.append p n (printAll []) = r := by
  show Printed.mk (r.writes ++ []) (r.nLen + 0) = r
  rw [List.append_nil, Int32.add_zero]

theorem nil_append (p : UInt32) (n : Int32) (print : UInt32 → Int32 → Printed) :
    (printAll [] p n).append p n print = print p n := by
  show Printed.mk ([] ++ (print (p + 0) (n - 0)).writes) (0 + (print (p + 0) (n - 0)).nLen) = _
  rw [UInt32.add_zero, Int32.sub_zero, List.nil_append, Int32.zero_add]

theorem append_append (r : Printed) (p : UInt32) (n : Int32) (f g : UInt32 → Int32 → Printed) :
    (r.append p n f).append p n g = r.append p n fun q k => (f q k).append q k g := by
  have hoffset : ∀ a b : Int32, p + (a + b).toUInt32 = p + a.toUInt32 + b.toUInt32 := by
    intro a b
    rw [Int32.toUInt32_add, UInt32.add_assoc]
  have hleft : ∀ a b : Int32, n - (a + b) = n - a - b := by
    intro a b
    exact (Int32.sub_sub n a b).symm
  simp only [Printed.append, hoffset, hleft, List.append_assoc, Int32.add_assoc]

theorem printAll_append (xs ys : List (List Char)) :
    printAll (xs ++ ys) = fun p n => (printAll xs p n).append p n (printAll ys) := by
  induction xs with
  | nil =>
    funext p n
    exact (nil_append p n (printAll ys)).symm
  | cons text texts ih =>
    funext p n
    rw [List.cons_append, printAll, ih, printAll, append_append]

theorem printAll_nLen (texts : List (List Char)) (p : UInt32) (n : Int32) :
    (printAll texts p n).nLen = Int32.ofNat texts.flatten.length := by
  induction texts generalizing p n with
  | nil => rfl
  | cons text texts ih =>
    show Int32.ofNat text.length + (printAll texts _ _).nLen = _
    rw [ih, List.flatten_cons, List.length_append, Int32.ofNat_add]

end Pieces

section Within

variable {p m : UInt32} {n : Int32}

theorem place_within (cs : List Char) (h : p.toNat + cs.length ≤ m.toNat) :
    ∀ w ∈ place p cs, w.1 < m := by
  induction cs generalizing p with
  | nil => simp [place]
  | cons c cs ih =>
    rw [List.length_cons] at h
    have hm := m.toNat_lt
    have hp : p < m := UInt32.lt_iff_toNat_lt.mpr (by omega)
    have hrest : (p + 1).toNat + cs.length ≤ m.toNat := by
      rw [Words.toNat_succ (by omega)]
      omega
    intro w hw
    obtain rfl | hw := List.mem_cons.mp hw
    · exact hp
    · exact ih hrest w hw

/-- Behind the end of the buffer the length left is negative, and as a size nearly everything. -/
theorem snprintf_within (text : List Char) (hn : n.toUInt32 = m - p) :
    (∀ w ∈ (snprintf text p n).writes, w.1 < m) ↔ p ≤ m := by
  rw [snprintf, hn]
  constructor
  · intro h
    by_contra hp
    have hlt : m < p := UInt32.not_le.mp hp
    have hne : m - p ≠ 0 := by
      intro hz
      rw [UInt32.sub_eq_iff_eq_add, UInt32.zero_add] at hz
      exact UInt32.ne_of_lt hlt hz
    obtain ⟨c, cs, hcs⟩ := List.exists_cons_of_ne_nil
      (by simp : text.take ((m - p).toNat - 1) ++ ['\x00'] ≠ [])
    rw [if_neg hne, hcs, place] at h
    exact UInt32.lt_asymm hlt (h _ List.mem_cons_self)
  · intro hp
    have hle := UInt32.le_iff_toNat_le.mp hp
    have hsize : (m - p).toNat = m.toNat - p.toNat := UInt32.toNat_sub_of_le _ _ hp
    split
    next => simp
    next hz =>
      apply place_within
      have hpos : 0 < (m - p).toNat := Nat.pos_of_ne_zero fun h => hz (UInt32.toNat_inj.mp h)
      rw [List.length_append, List.length_take, List.length_singleton]
      omega

theorem left_append (text : List Char) (hn : n.toUInt32 = m - p) :
    (n - (snprintf text p n).nLen).toUInt32 = m - (p + UInt32.ofNat text.length) := by
  rw [Int32.toUInt32_sub, hn]
  apply UInt32.toBitVec_inj.mp
  show m.toBitVec - p.toBitVec - BitVec.ofNat 32 text.length = _
  rw [BitVec.sub_sub]
  rfl

/-- The pieces stay in a buffer of `m` characters exactly when none starts behind its end. -/
theorem printAll_within (texts : List (List Char)) (hn : n.toUInt32 = m - p) :
    (∀ w ∈ (printAll texts p n).writes, w.1 < m) ↔ ∀ o ∈ starts p texts, o ≤ m := by
  induction texts generalizing p n with
  | nil => simp [printAll, starts]
  | cons text texts ih =>
    have hhead := snprintf_within text hn
    have htail := ih (left_append text hn)
    show (∀ w ∈ (snprintf text p n).writes ++ (printAll texts _ _).writes, w.1 < m) ↔ _
    rw [List.forall_mem_append, hhead, starts, List.forall_mem_cons]
    exact and_congr_right' htail

/-- Short of a wrap the last piece starts latest. -/
theorem starts_le_iff (texts : List (List Char)) (last : List Char)
    (h : p.toNat + texts.flatten.length < 2 ^ 32) :
    (∀ o ∈ starts p (texts ++ [last]), o ≤ m) ↔ p.toNat + texts.flatten.length ≤ m.toNat := by
  induction texts generalizing p with
  | nil => simp [starts, UInt32.le_iff_toNat_le]
  | cons text texts ih =>
    rw [List.flatten_cons, List.length_append] at h ⊢
    have hnext : (p + UInt32.ofNat text.length).toNat = p.toNat + text.length := by
      have hsize : text.length < UInt32.size := by
        rw [UInt32.size]
        omega
      rw [UInt32.toNat_add, UInt32.toNat_ofNat_of_lt' hsize]
      exact Nat.mod_eq_of_lt (by omega)
    have hrest := ih (p := p + UInt32.ofNat text.length) (by omega)
    rw [List.cons_append, starts, List.forall_mem_cons, hrest, hnext, UInt32.le_iff_toNat_le]
    omega

end Within

section Room

variable {m : UInt32} {n : Int32}

theorem store_append (buf : List Char) (ws vs : List (UInt32 × Char)) :
    store buf (ws ++ vs) = store (store buf ws) vs := List.foldl_append

theorem store_place (pre post cs : List Char) (hpost : cs.length ≤ post.length)
    (hp : pre.length + cs.length < 2 ^ 32) :
    store (pre ++ post) (place (UInt32.ofNat pre.length) cs) =
      pre ++ (cs ++ post.drop cs.length) := by
  induction cs generalizing pre post with
  | nil => rfl
  | cons c cs ih =>
    rw [List.length_cons] at hpost hp
    obtain ⟨d, post, rfl⟩ := List.exists_cons_of_length_pos (by omega : 0 < post.length)
    rw [List.length_cons] at hpost
    have hsize : pre.length < UInt32.size := by
      rw [UInt32.size]
      omega
    have hset : (pre ++ d :: post).set (UInt32.ofNat pre.length).toNat c = (pre ++ [c]) ++ post := by
      rw [UInt32.toNat_ofNat_of_lt' hsize, List.set_append_right _ _ (Nat.le_refl _)]
      simp
    have hnext : UInt32.ofNat pre.length + 1 = UInt32.ofNat (pre ++ [c]).length := by
      rw [List.length_append, UInt32.ofNat_add]
      rfl
    have hrest := ih (pre ++ [c]) post (by omega)
      (by rw [List.length_append, List.length_singleton]; omega)
    show store ((pre ++ d :: post).set _ c) _ = _
    rw [hset, hnext, hrest]
    simp

/-- With room for the text and its terminator nothing is left out. -/
theorem store_snprintf (pre post text : List Char)
    (hn : n.toUInt32 = m - UInt32.ofNat pre.length)
    (hm : (pre ++ post).length = m.toNat) (hroom : text.length < post.length) :
    store (pre ++ post) (snprintf text (UInt32.ofNat pre.length) n).writes =
      pre ++ (text ++ '\x00' :: post.drop (text.length + 1)) := by
  have hlt := m.toNat_lt
  rw [List.length_append] at hm
  have hsize : (UInt32.ofNat pre.length).toNat = pre.length := by
    apply UInt32.toNat_ofNat_of_lt'
    rw [UInt32.size]
    omega
  have hleft : (m - UInt32.ofNat pre.length).toNat = post.length := by
    rw [UInt32.toNat_sub_of_le _ _ (UInt32.le_iff_toNat_le.mpr (by omega)), hsize]
    omega
  have hne : m - UInt32.ofNat pre.length ≠ 0 := by
    intro hz
    rw [hz] at hleft
    have hzero : post.length = 0 := hleft.symm
    omega
  have hfit : text.take (post.length - 1) = text := List.take_of_length_le (by omega)
  have hlen : (text ++ ['\x00']).length = text.length + 1 := by
    rw [List.length_append, List.length_singleton]
  rw [snprintf, hn, if_neg hne, hleft, hfit, store_place pre post _ (by omega) (by omega), hlen,
    List.append_assoc]
  rfl

theorem store_printAll (pre post : List Char) (texts : List (List Char)) (last : List Char)
    (hn : n.toUInt32 = m - UInt32.ofNat pre.length) (hm : (pre ++ post).length = m.toNat)
    (hroom : (texts ++ [last]).flatten.length < post.length) :
    ∃ rest, store (pre ++ post) (printAll (texts ++ [last]) (UInt32.ofNat pre.length) n).writes =
      pre ++ ((texts ++ [last]).flatten ++ '\x00' :: rest) := by
  induction texts generalizing pre post n with
  | nil =>
    rw [List.nil_append, List.flatten_singleton] at hroom ⊢
    rw [printAll, append_nil]
    exact ⟨_, store_snprintf pre post last hn hm hroom⟩
  | cons text texts ih =>
    rw [List.cons_append, List.flatten_cons, List.length_append] at hroom
    have hfirst := store_snprintf pre post text hn hm (by omega)
    have hnext : UInt32.ofNat pre.length + UInt32.ofNat text.length =
        UInt32.ofNat (pre ++ text).length := by rw [List.length_append, UInt32.ofNat_add]
    have hleft := left_append text hn
    rw [hnext] at hleft
    obtain ⟨rest, hrest⟩ := ih (pre ++ text) ('\x00' :: post.drop (text.length + 1)) hleft
      (by simp at hm ⊢; omega) (by simp at hroom ⊢; omega)
    refine ⟨rest, ?_⟩
    show store _ ((snprintf text _ n).writes ++ (printAll (texts ++ [last]) (_ + UInt32.ofNat _) _).writes)
      = _
    rw [store_append, hfirst, hnext, ← List.append_assoc, hrest]
    simp

end Room

end Snprintf
