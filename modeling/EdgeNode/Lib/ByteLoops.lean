import Mathlib.Algebra.Group.Nat.Defs
import Mathlib.Data.List.Basic
import Mathlib.Tactic.Common

/-! Loops of C over the bytes of a buffer, with their counters. -/

namespace ByteLoops

variable {σ : Type} (body : σ → UInt8 → σ) (pBuf : List UInt8)

/-- `for (int32_t i = 0; i < ulSize; i++)` from `i` on, with `pBuf[i]` in each turn. None is a read
behind the buffer, a counter that overflows, or a loop that needs more turns. -/
def forUp (ulSize : UInt32) : Nat → Int32 → σ → Option σ
  | 0, _, _ => none
  | turns + 1, i, s =>
    if i.toUInt32 < ulSize then do
      let data ← pBuf[i.toUInt32.toNat]?
      let i ← if i = Int32.maxValue then none else some (i + 1)
      forUp ulSize turns i (body s data)
    else some s

/-- `while (size--)` with `*p++` in each turn, over what lies from `p` on. -/
def whileDown : Nat → List UInt8 → σ → Option σ
  | 0, _, s => some s
  | _ + 1, [], _ => none
  | size + 1, data :: p, s => whileDown size p (body s data)

theorem whileDown_length (s : σ) : whileDown body pBuf.length pBuf s = some (pBuf.foldl body s) := by
  induction pBuf generalizing s with
  | nil => rfl
  | cons data p ih => exact ih (body s data)

variable {pBuf}

theorem forUp_turn {turns i : Nat} (hlen : pBuf.length < 2 ^ 31) (hi : i < pBuf.length) (s : σ) :
    forUp body pBuf (UInt32.ofNat pBuf.length) (turns + 1) (Int32.ofNat i) s =
      forUp body pBuf (UInt32.ofNat pBuf.length) turns (Int32.ofNat (i + 1)) (body s pBuf[i]) := by
  have hsize : pBuf.length < UInt32.size := Nat.lt_trans hlen (by decide)
  have hword : ∀ k ≤ pBuf.length, (UInt32.ofNat k).toNat = k := fun k hk =>
    UInt32.toNat_ofNat_of_lt' (Nat.lt_of_le_of_lt hk hsize)
  have hlt : UInt32.ofNat i < UInt32.ofNat pBuf.length := by
    rwa [UInt32.lt_iff_toNat_lt, hword i (by omega), hword _ (Nat.le_refl _)]
  have hmax : Int32.ofNat i ≠ Int32.maxValue := by
    intro h
    have hint := congrArg Int32.toInt h
    rw [Int32.toInt_ofNat_of_lt (by omega), Int32.toInt_maxValue] at hint
    omega
  have hread : pBuf[(UInt32.ofNat i).toNat]? = some pBuf[i] := by
    rw [hword i (by omega), List.getElem?_eq_getElem hi]
  rw [forUp, Int32.toUInt32_ofNat', if_pos hlt, hread, Int32.ofNat_add]
  simp [hmax]

/-- The counter runs through the buffer as long as it has no more bytes than the counter has
values. -/
theorem forUp_length {turns : Nat} (hlen : pBuf.length < 2 ^ 31) (hturns : pBuf.length < turns)
    (s : σ) : forUp body pBuf (UInt32.ofNat pBuf.length) turns 0 s = some (pBuf.foldl body s) := by
  have hfrom : ∀ n i turns (s : σ), i + n = pBuf.length → n < turns →
      forUp body pBuf (UInt32.ofNat pBuf.length) turns (Int32.ofNat i) s =
        some ((pBuf.drop i).foldl body s) := by
    intro n
    induction n with
    | zero =>
      intro i turns s hi hturns
      obtain ⟨turns, rfl⟩ : ∃ k, turns = k + 1 := ⟨turns - 1, by omega⟩
      obtain rfl : i = pBuf.length := by omega
      rw [forUp, Int32.toUInt32_ofNat', if_neg (UInt32.lt_irrefl _), List.drop_length]
      rfl
    | succ n ih =>
      intro i turns s hi hturns
      obtain ⟨turns, rfl⟩ : ∃ k, turns = k + 1 := ⟨turns - 1, by omega⟩
      have hlt : i < pBuf.length := by omega
      rw [forUp_turn body hlen hlt, ih (i + 1) turns _ (by omega) (by omega),
        List.drop_eq_getElem_cons hlt]
      rfl
  exact hfrom pBuf.length 0 turns s (Nat.zero_add _) hturns

end ByteLoops
