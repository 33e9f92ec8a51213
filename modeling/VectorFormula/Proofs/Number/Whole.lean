import Mathlib
import VectorFormula.Number.Rounding
import VectorFormula.Proofs.Number.Sign
/-!
Whole parts of doubles. Every safe whole number is a magnitude, so the double that is read for it
has it as its whole part (`truncate?_of_isClosest`).
-/
namespace VectorFormula.Number

section

variable {negative : Bool} {ordinal n : Nat} {i : Int}

theorem exists_magnitude (h : n ≤ safeLimit + 1) : ∃ ordinal, magnitude ordinal = n := by
  rcases Nat.eq_zero_or_pos n with rfl | hpos
  · exact ⟨0, by rw [magnitude_zero, Nat.cast_zero]⟩
  rcases Nat.lt_or_ge n binade with hlt | hge
  · -- A small number is moved up to the significands of its binade.
    have hlog : n.log2 < 52 := (Nat.log2_lt hpos.ne').mpr hlt
    have hlow : 2 ^ n.log2 * 2 ^ (52 - n.log2) ≤ n * 2 ^ (52 - n.log2) :=
      Nat.mul_le_mul_right _ (Nat.log2_self_le hpos.ne')
    have hhigh : n * 2 ^ (52 - n.log2) ≤ 2 ^ (n.log2 + 1) * 2 ^ (52 - n.log2) :=
      Nat.mul_le_mul_right _ Nat.lt_log2_self.le
    rw [← pow_add] at hlow hhigh
    have hbinade : 2 ^ (n.log2 + (52 - n.log2)) = binade := by
      rw [Nat.add_sub_cancel' hlog.le]
      rfl
    have hdouble : 2 ^ (n.log2 + 1 + (52 - n.log2)) = 2 * binade := by
      rw [Nat.add_right_comm, Nat.add_sub_cancel' hlog.le]
      rfl
    rw [hbinade] at hlow
    rw [hdouble] at hhigh
    refine ⟨(1022 + n.log2) * binade + n * 2 ^ (52 - n.log2), ?_⟩
    have hzero : (52 - n.log2 : Nat) + (leastExponent + (1022 + n.log2 : Nat)) = 0 := by
      simp only [leastExponent]
      omega
    rw [magnitude_eq hhigh (.inr hlow), Nat.cast_mul, Nat.cast_pow, Nat.cast_two, mul_assoc,
      ← zpow_natCast, ← zpow_add₀ two_ne_zero, hzero, zpow_zero, mul_one]
  · refine ⟨1074 * binade + n, ?_⟩
    rw [magnitude_eq (by simp only [safeLimit, binade] at *; omega) (.inr hge)]
    simp [leastExponent]

theorem truncate?_ofOrdinal (negative : Bool) (h : ordinal < infiniteOrdinal) :
    truncate? (ofOrdinal negative ordinal) =
      some (if negative then -(⌊magnitude ordinal⌋₊ : Int) else ⌊magnitude ordinal⌋₊) := by
  have hfloor (significand : Nat) (exponent : Int) :
      significand * Nat.pow 2 exponent.toNat / Nat.pow 2 (-exponent).toNat =
        ⌊(significand * 2 ^ exponent : ℚ)⌋₊ := by
    rw [← Nat.floor_div_eq_div (K := ℚ), zpow_eq_div two_ne_zero exponent, ← mul_div_assoc]
    simp only [Nat.pow_eq]
    push_cast
    rfl
  simp only [truncate?, view_ofOrdinal negative h, hfloor]
  rfl

theorem truncate?_ofOrdinal_infinite (negative : Bool) (h : infiniteOrdinal ≤ ordinal) :
    truncate? (ofOrdinal negative ordinal) = none := by
  simp only [truncate?, view_ofOrdinal_infinite negative h]

theorem IsClosest.magnitude_eq (hc : IsClosest n ordinal) (hn : n ≤ safeLimit) :
    ordinal < infiniteOrdinal ∧ magnitude ordinal = n := by
  obtain ⟨other, ho⟩ := exists_magnitude (Nat.le_succ_of_le hn)
  have hclosest : IsClosest n other := ho ▸ isClosest_magnitude other
  have hmagnitude : magnitude ordinal = n := by rw [hclosest.unique hc, ho]
  refine ⟨?_, hmagnitude⟩
  rw [← magnitude_strictMono.lt_iff_lt, hmagnitude, magnitude_infinite]
  calc (n : ℚ) ≤ safeLimit := by exact_mod_cast hn
    _ < 2 ^ (53 : Int) := by norm_num [safeLimit]
    _ ≤ 2 ^ (1024 : Int) := zpow_le_zpow_right₀ one_le_two (by norm_num)

theorem truncate?_of_isClosest (hc : IsClosest n ordinal) (hn : n ≤ safeLimit) :
    truncate? (ofOrdinal negative ordinal) = some (if negative then -(n : Int) else n) := by
  obtain ⟨hfinite, hmagnitude⟩ := hc.magnitude_eq hn
  rw [truncate?_ofOrdinal negative hfinite, hmagnitude, Nat.floor_natCast]

private theorem IsClosest.le_floor {limit other : Nat} (hc : IsClosest n ordinal)
    (ho : magnitude other = limit) (hn : limit ≤ n) : limit ≤ ⌊magnitude ordinal⌋₊ := by
  have hother : magnitude other ≤ n := ho ▸ Nat.cast_le.mpr hn
  have hle : magnitude other ≤ magnitude ordinal :=
    magnitude_strictMono.monotone (hc.le_of_le hother)
  exact Nat.le_floor (ho ▸ hle)

theorem not_isSafe_of_isClosest (hc : IsClosest n ordinal) (hn : safeLimit < n)
    (ht : truncate? (ofOrdinal negative ordinal) = some i) : isSafe i = false := by
  rcases Nat.lt_or_ge ordinal infiniteOrdinal with h | h
  · obtain ⟨other, ho⟩ := exists_magnitude (Nat.le_refl (safeLimit + 1))
    have hfloor : safeLimit + 1 ≤ ⌊magnitude ordinal⌋₊ := hc.le_floor ho hn
    have habs : i.natAbs = ⌊magnitude ordinal⌋₊ := by
      rw [truncate?_ofOrdinal negative h] at ht
      rw [← Option.some.inj ht]
      split
      · rw [Int.natAbs_neg, Int.natAbs_natCast]
      · rw [Int.natAbs_natCast]
    rw [isSafe, habs]
    exact decide_eq_false (Nat.not_le_of_lt hfloor)
  · rw [truncate?_ofOrdinal_infinite negative h] at ht
    cases ht

theorem truncate?_signed (hc : IsClosest i.natAbs ordinal) (h : isSafe i = true) :
    truncate? (ofOrdinal (decide (i < 0)) ordinal) = some i := by
  rw [truncate?_of_isClosest hc (by simpa [isSafe] using h)]
  simp only [decide_eq_true_eq, Option.some.injEq]
  split <;> omega

theorem exists_ofInt (i : Int) :
    ∃ ordinal, IsClosest i.natAbs ordinal ∧ ofInt i = ofOrdinal (decide (i < 0)) ordinal := by
  obtain ⟨ordinal, hc, ho⟩ := @nearest_isClosest i.natAbs 1 (decide (i < 0)) one_ne_zero
  rw [Nat.cast_one, div_one] at hc
  exact ⟨ordinal, hc, ho.symm⟩

theorem truncate?_neg_ofInt (h : isSafe i = true) : truncate? (-ofInt i) = some (-i) := by
  obtain ⟨ordinal, hc, ho⟩ := exists_ofInt i
  rw [ho, neg_ofOrdinal, truncate?_of_isClosest hc (by simpa [isSafe] using h)]
  simp only [Bool.not_eq_true', decide_eq_false_iff_not, Option.some.injEq]
  split <;> omega

end

end VectorFormula.Number
