import EdgeNode.Obj.Statistics

/-! The success ratio that the object commands show. -/

namespace EdgeNode.Obj.Statistics

/-- `nRatio` of `FTE_OBJ_CMD_showInfo` and of the list of objects, in hundredths of a percent; without
a value where the division is one by zero. -/
def ratio (s : Statistics) : Option UInt32 :=
  if s.nTotalTrial = 0 then none
  else some ((s.nTotalTrial - s.nTotalFail) * 10000 / s.nTotalTrial)

/-- The ratio of the record as the integers give it, and a percentage. -/
def RatioRight (s : Statistics) : Prop :=
  ∃ nRatio, s.ratio = some nRatio ∧
    (nRatio.toNat : Int) =
      ((s.nTotalTrial.toNat : Int) - s.nTotalFail.toNat) * 10000 / s.nTotalTrial.toNat ∧
    nRatio.toNat ≤ 10000

section Quotient

/-- Where the product is more than a word the quotient is too small. -/
theorem mod_div_lt {n d : Nat} (hd : 0 < d) (hlt : d < 2 ^ 32) (hn : 2 ^ 32 ≤ n) :
    n % 2 ^ 32 / d < n / d := by
  have hle : n % 2 ^ 32 + d ≤ n := by omega
  have hdiv := Nat.div_le_div_right (c := d) hle
  rw [Nat.add_div_right _ hd] at hdiv
  exact hdiv

theorem quotient_iff {d f : Nat} (hd : 0 < d) (hlt : d < 2 ^ 32) (hle : f ≤ d) :
    (((d - f) * 10000 % 2 ^ 32 / d : Nat) : Int) = ((d : Int) - f) * 10000 / d ∧
      (d - f) * 10000 % 2 ^ 32 / d ≤ 10000 ↔ d - f ≤ 429496 := by
  have hcast : ((d : Int) - f) * 10000 / d = ((d - f) * 10000 / d : Nat) := by
    rw [Int.natCast_ediv, Int.natCast_mul, Int.ofNat_sub hle]
    rfl
  have hpercent : (d - f) * 10000 / d ≤ 10000 := by
    apply Nat.div_le_of_le_mul
    exact Nat.mul_le_mul_right 10000 (Nat.sub_le d f)
  rw [hcast, Int.ofNat_inj]
  constructor
  · rintro ⟨hexact, -⟩
    by_contra hmore
    have hsmall := mod_div_lt hd hlt (show 2 ^ 32 ≤ (d - f) * 10000 by omega)
    omega
  · intro h
    rw [Nat.mod_eq_of_lt (by omega)]
    exact ⟨rfl, hpercent⟩

theorem quotient_neg {d f : Nat} (hd : 0 < d) (h : d < f) : ((d : Int) - f) * 10000 / d < 0 :=
  Int.ediv_neg_of_neg_of_pos (by omega) (by omega)

end Quotient

variable {s : Statistics}

theorem ratio_eq_none (h : s.nTotalTrial.toNat = 0) : s.ratio = none :=
  if_pos (UInt32.toNat_inj.mp h)

theorem ratio_eq_some (h : 0 < s.nTotalTrial.toNat) : ∃ nRatio, s.ratio = some nRatio ∧
    nRatio.toNat =
      (s.nTotalTrial - s.nTotalFail).toNat * 10000 % 2 ^ 32 / s.nTotalTrial.toNat := by
  have hne : s.nTotalTrial ≠ 0 := fun hz => absurd (UInt32.toNat_inj.mpr hz) (Nat.ne_of_gt h)
  refine ⟨_, if_neg hne, ?_⟩
  rw [UInt32.toNat_div, UInt32.toNat_mul]
  rfl

theorem ratioRight_iff : s.RatioRight ↔ 0 < s.nTotalTrial.toNat ∧
    s.nTotalFail.toNat ≤ s.nTotalTrial.toNat ∧
    s.nTotalTrial.toNat - s.nTotalFail.toNat ≤ 429496 := by
  unfold RatioRight
  obtain hzero | hpos := Nat.eq_zero_or_pos s.nTotalTrial.toNat
  · rw [ratio_eq_none hzero]
    apply iff_of_false
    · rintro ⟨nRatio, h, -⟩
      cases h
    · exact fun h => absurd hzero (Nat.ne_of_gt h.1)
  · obtain ⟨nRatio, hsome, hnat⟩ := ratio_eq_some hpos
    have hunique : (∃ n, s.ratio = some n ∧ (n.toNat : Int) =
          ((s.nTotalTrial.toNat : Int) - s.nTotalFail.toNat) * 10000 / s.nTotalTrial.toNat ∧
          n.toNat ≤ 10000) ↔ (nRatio.toNat : Int) =
        ((s.nTotalTrial.toNat : Int) - s.nTotalFail.toNat) * 10000 / s.nTotalTrial.toNat ∧
          nRatio.toNat ≤ 10000 := by
      rw [hsome]
      constructor
      · rintro ⟨n, hn, hright⟩
        cases hn
        exact hright
      · exact fun hright => ⟨nRatio, rfl, hright⟩
    rw [hunique, and_iff_right hpos]
    by_cases hle : s.nTotalFail.toNat ≤ s.nTotalTrial.toNat
    · rw [hnat, UInt32.toNat_sub_of_le _ _ (UInt32.le_iff_toNat_le.mpr hle), and_iff_right hle]
      exact quotient_iff hpos s.nTotalTrial.toNat_lt hle
    · apply iff_of_false
      · rintro ⟨hexact, -⟩
        have hneg := quotient_neg hpos (Nat.lt_of_not_le hle)
        omega
      · exact fun h => hle h.1

/-- The counters are words: what counts is what is left of the trials and the failures there. -/
theorem run_ratioRight_iff (allowedFailureCount : UInt32) (trials : List Bool) :
    (run allowedFailureCount trials).RatioRight ↔
      0 < trials.length % 2 ^ 32 ∧ trials.count true % 2 ^ 32 ≤ trials.length % 2 ^ 32 ∧
        trials.length % 2 ^ 32 - trials.count true % 2 ^ 32 ≤ 429496 := by
  have hcounts := run_counts allowedFailureCount trials
  rw [ratioRight_iff, hcounts.totalTrial, hcounts.totalFail]

/-- Before the first trial the ratio is a division by zero. -/
theorem ratio_of_nothing : ¬ (run 10 []).RatioRight := by
  rintro ⟨nRatio, h, -⟩
  cases h

end EdgeNode.Obj.Statistics
