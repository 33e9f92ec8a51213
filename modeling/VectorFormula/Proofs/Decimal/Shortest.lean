import Mathlib
import VectorFormula.Decimal.Shortest
import VectorFormula.Proofs.Number.Nearest
/-!
The digits that are found for a double read back. Whatever grid they were found on, no other
magnitude is closer to the decimal than the one that they were found for (`isClosest_shortest`).
-/
namespace VectorFormula.Decimal

open Number (binade leastExponent magnitude IsClosest)

section

variable {significand above count : Nat} {exponent grid : Int}

/-- How far the lower end of the interval is below a magnitude, in quarters of its unit. -/
def stepBelow (significand above : Nat) : Nat :=
  if significand = binade ∧ 0 < above then 1 else 2

private theorem exists_unit (significand : Nat) (exponent grid : Int) :
    ∃ unit : ℚ, 0 < unit ∧
      ((onGrid significand exponent grid).1 : ℚ) * unit = significand * 2 ^ exponent ∧
      ((onGrid significand exponent grid).2 : ℚ) * unit = 10 ^ grid := by
  refine ⟨(2 ^ (-exponent).toNat * 10 ^ (-grid).toNat)⁻¹, by positivity, ?_, ?_⟩
  · rw [Number.zpow_eq_div two_ne_zero]
    simp only [onGrid, Nat.pow_eq]
    push_cast
    field_simp
  · rw [Number.zpow_eq_div (by norm_num) grid]
    simp only [onGrid, Nat.pow_eq]
    push_cast
    field_simp

private theorem readsBack_spec
    (h : readsBack significand (leastExponent + above) grid count = true) :
    let unit := (onGrid 1 (leastExponent + above) grid).1
    let point := 4 * count * (onGrid 1 (leastExponent + above) grid).2
    let low := (4 * significand - stepBelow significand above) * unit
    let high := (4 * significand + 2) * unit
    low ≤ point ∧ point ≤ high ∧ (low = point ∨ point = high → Even significand) := by
  have hbelow : (if significand = binade ∧ leastExponent < leastExponent + above then 1 else 2) =
      stepBelow significand above := by
    simp [stepBelow]
  intro unit point low high
  simp only [readsBack, hbelow] at h
  split at h
  · rename_i heven
    obtain ⟨hlow, hhigh⟩ := of_decide_eq_true h
    exact ⟨hlow, hhigh, fun _ => Nat.even_iff.mpr heven⟩
  · obtain ⟨hlow, hhigh⟩ := of_decide_eq_true h
    refine ⟨hlow.le, hhigh.le, ?_⟩
    rintro (he | he)
    · exact absurd he hlow.ne
    · exact absurd he hhigh.ne

private theorem between_of_readsBack (hpos : 0 < significand)
    (h : readsBack significand (leastExponent + above) grid count = true) :
    let unit : ℚ := 2 ^ (leastExponent + above)
    let point : ℚ := 4 * (count * 10 ^ grid)
    let low : ℚ := (4 * significand - stepBelow significand above) * unit
    let high : ℚ := (4 * significand + 2) * unit
    low ≤ point ∧ point ≤ high ∧ (low = point ∨ point = high → Even significand) := by
  obtain ⟨unit, hunit, hvalue, hscale⟩ := exists_unit 1 (leastExponent + above) grid
  obtain ⟨hlow, hhigh, heven⟩ := readsBack_spec h
  have hstep : stepBelow significand above ≤ 4 * significand := by
    unfold stepBelow
    split <;> omega
  rw [Nat.cast_one, one_mul] at hvalue
  rw [← hvalue, ← hscale]
  have hpoint : 4 * (count * ((onGrid 1 (leastExponent + above) grid).2 * unit)) =
      ((4 * count * (onGrid 1 (leastExponent + above) grid).2 : Nat) : ℚ) * unit := by
    push_cast
    ring
  have hl : (4 * significand - stepBelow significand above : ℚ) *
      ((onGrid 1 (leastExponent + above) grid).1 * unit) =
      (((4 * significand - stepBelow significand above) *
        (onGrid 1 (leastExponent + above) grid).1 : Nat) : ℚ) * unit := by
    push_cast [Nat.cast_sub hstep]
    ring
  have hh : (4 * significand + 2 : ℚ) * ((onGrid 1 (leastExponent + above) grid).1 * unit) =
      (((4 * significand + 2) * (onGrid 1 (leastExponent + above) grid).1 : Nat) : ℚ) * unit := by
    push_cast
    ring
  simp only [hpoint, hl, hh, mul_le_mul_iff_left₀ hunit, mul_left_inj' hunit.ne', Nat.cast_le,
    Nat.cast_inj]
  exact ⟨hlow, hhigh, heven⟩

/-- The magnitude below is twice as far away as the lower end of the interval. -/
private theorem exists_previous (hpos : 0 < significand) (hs : significand ≤ 2 * binade)
    (hl : above = 0 ∨ binade ≤ significand) :
    ∃ previous, previous + 1 = above * binade + significand ∧
      2 * magnitude previous =
        (2 * significand - stepBelow significand above) * 2 ^ (leastExponent + above) := by
  by_cases hfoot : significand = binade ∧ 0 < above
  · obtain ⟨rfl, habove⟩ := hfoot
    obtain ⟨lower, rfl⟩ := Nat.exists_eq_add_one_of_ne_zero habove.ne'
    refine ⟨lower * binade + (2 * binade - 1), by simp only [binade]; omega, ?_⟩
    have hdouble :
        (2 : ℚ) ^ (leastExponent + (lower + 1 : Nat)) = 2 ^ (leastExponent + lower) * 2 := by
      rw [Nat.cast_add_one, ← add_assoc, zpow_add_one₀ two_ne_zero]
    rw [Number.magnitude_eq (Nat.sub_le _ _) (.inr (by decide)), stepBelow, if_pos ⟨rfl, habove⟩,
      hdouble, Nat.cast_pred (by decide)]
    push_cast
    ring
  · have hlow : above = 0 ∨ binade ≤ significand - 1 := by omega
    refine ⟨above * binade + (significand - 1), by omega, ?_⟩
    rw [Number.magnitude_eq (by omega) hlow, stepBelow, if_neg hfoot, Nat.cast_pred hpos]
    push_cast
    ring

theorem isClosest_of_readsBack (hpos : 0 < significand) (hs : significand < 2 * binade)
    (hl : above = 0 ∨ binade ≤ significand)
    (h : readsBack significand (leastExponent + above) grid count = true) :
    IsClosest (count * 10 ^ grid) (above * binade + significand) := by
  obtain ⟨hlow, hhigh, heven⟩ := between_of_readsBack hpos h
  obtain ⟨previous, hprevious, hbefore⟩ := exists_previous hpos hs.le hl
  have hthis := Number.magnitude_eq hs.le hl
  have hnext := Number.magnitude_eq hs (hl.imp_right Nat.le_succ_of_le)
  have hparity : Even significand → Even (above * binade + significand) :=
    ((Nat.even_iff.mpr rfl : Even binade).mul_left above).add
  have hunit : (0 : ℚ) < 2 ^ (leastExponent + above) := by positivity
  have hstep : (0 : ℚ) ≤ stepBelow significand above * 2 ^ (leastExponent + above) := by positivity
  push_cast at hnext
  rcases le_total (magnitude (above * binade + significand)) (count * 10 ^ grid) with hle | hle
  · refine @Number.isClosest_of_between _ (above * binade + significand) _ hle ?_
      (.inl ⟨rfl, ?_⟩) ?_
    · rw [add_assoc, hnext]
      linarith
    · rw [add_assoc, hnext, hthis]
      linarith
    · rw [add_assoc, hnext, hthis]
      intro he
      exact hparity (heven (.inr (by linarith)))
  · rw [← hprevious] at hle ⊢
    refine @Number.isClosest_of_between _ previous _ ?_ hle (.inr ⟨rfl, ?_⟩) ?_
    · linarith
    · rw [hprevious, hthis]
      linarith
    · rw [hprevious, hthis]
      intro he
      exact hparity (heven (.inl (by linarith)))

theorem readsBack_of_neighbour? (h : neighbour? significand exponent grid = some count) :
    readsBack significand exponent grid count = true := by
  simp only [neighbour?] at h
  split at h
  · obtain rfl := Option.some.inj h
    split <;> assumption
  · obtain rfl := Option.some.inj h
    assumption
  · obtain rfl := Option.some.inj h
    assumption
  · cases h

theorem allDigits_eq (significand : Nat) (exponent : Int) :
    ((allDigits significand exponent).1 * 10 ^ (allDigits significand exponent).2 : ℚ) =
      significand * 2 ^ exponent := by
  have hgrid : (10 : ℚ) ^ min exponent 0 = (2 ^ (-exponent).toNat * 5 ^ (-exponent).toNat)⁻¹ := by
    rw [← mul_pow, show min exponent 0 = -((-exponent).toNat : Int) by omega, zpow_neg,
      zpow_natCast]
    norm_num
  rw [Number.zpow_eq_div two_ne_zero exponent]
  simp only [allDigits, hgrid, Nat.pow_eq]
  push_cast
  field_simp

private theorem isClosest_search (hpos : 0 < significand) (hs : significand < 2 * binade)
    (hl : above = 0 ∨ binade ≤ significand) (tries : Nat) (grid : Int) :
    let found := search significand (leastExponent + above) tries grid
    IsClosest (found.1 * 10 ^ found.2) (above * binade + significand) := by
  induction tries generalizing grid with
  | zero =>
    simp only [search, allDigits_eq]
    rw [← Number.magnitude_eq hs.le hl]
    exact Number.isClosest_magnitude _
  | succ tries ih =>
    simp only [search]
    cases hn : neighbour? significand (leastExponent + above) grid with
    | none => exact ih (grid - 1)
    | some count => exact isClosest_of_readsBack hpos hs hl (readsBack_of_neighbour? hn)

/-- The shortest digits of a magnitude are closest to it. -/
theorem isClosest_shortest (hpos : 0 < significand) (hs : significand < 2 * binade)
    (hl : above = 0 ∨ binade ≤ significand) :
    let found := shortest significand (leastExponent + above)
    IsClosest (found.1 * 10 ^ found.2) (above * binade + significand) :=
  isClosest_search hpos hs hl _ _

end

end VectorFormula.Decimal
