import Mathlib
import VectorFormula.Number.Binary
/-!
Correct rounding. The magnitudes of doubles grow with their numbers, and `nearest` finds the one
that is closest to a fraction, the even one of two (`nearest_isClosest`).
-/
namespace VectorFormula.Number

/-- How far the exponent of a magnitude is above the least. The two lowest binades have the least. -/
def exponentAbove (ordinal : Nat) : Nat := ordinal / binade - 1

/-- The magnitude with a number. From the infinite one on, magnitudes go on as if exponents had no
limit. -/
def magnitude (ordinal : Nat) : ℚ :=
  (ordinal - exponentAbove ordinal * binade : Nat) * 2 ^ (leastExponent + exponentAbove ordinal)

/-- Whether the magnitude with a number is the closest to a fraction: no other is closer, and if
another is as close, the number is even, and with it the significand. -/
structure IsClosest (q : ℚ) (ordinal : Nat) : Prop where
  le (other : Nat) : |q - magnitude ordinal| ≤ |q - magnitude other|
  even (other : Nat) : other ≠ ordinal → |q - magnitude ordinal| = |q - magnitude other| →
    Even ordinal

/-- Whether a fraction that is not negative rounds to a double. What is closest to a magnitude that
would need too large an exponent rounds to infinity. -/
def RoundsTo (q : ℚ) (x : Float) : Prop :=
  ∃ ordinal, IsClosest q ordinal ∧ ofOrdinal false ordinal = x

section

variable {q : ℚ} {ordinal other above significand numerator denominator : Nat}

theorem magnitude_eq (hs : significand ≤ 2 * binade) (hl : above = 0 ∨ binade ≤ significand) :
    magnitude (above * binade + significand) = significand * 2 ^ (leastExponent + above) := by
  have habove : exponentAbove (above * binade + significand) = above ∨
      significand = 2 * binade ∧ exponentAbove (above * binade + significand) = above + 1 := by
    simp only [exponentAbove, binade] at *
    omega
  rcases habove with h | ⟨rfl, h⟩
  · rw [magnitude, h, Nat.add_sub_cancel_left]
  · have hhalf : above * binade + 2 * binade - (above + 1) * binade = binade := by
      simp only [binade]
      omega
    rw [magnitude, h, hhalf, Nat.cast_add, Nat.cast_one, ← add_assoc, zpow_add_one₀ two_ne_zero,
      Nat.cast_mul]
    ring

private theorem exists_significand (ordinal : Nat) :
    ∃ above significand, ordinal = above * binade + significand ∧ significand < 2 * binade ∧
      (above = 0 ∨ binade ≤ significand) := by
  refine ⟨exponentAbove ordinal, ordinal - exponentAbove ordinal * binade, ?_⟩
  simp only [exponentAbove, binade]
  omega

theorem magnitude_strictMono : StrictMono magnitude := by
  refine strictMono_nat_of_lt_succ fun ordinal => ?_
  obtain ⟨above, significand, rfl, hs, hl⟩ := exists_significand ordinal
  rw [add_assoc, magnitude_eq hs.le hl, magnitude_eq (by omega) (by omega), Nat.cast_succ]
  exact mul_lt_mul_of_pos_right (lt_add_one _) (by positivity)

theorem magnitude_zero : magnitude 0 = 0 := by
  simp [magnitude]

theorem isClosest_magnitude (ordinal : Nat) : IsClosest (magnitude ordinal) ordinal where
  le other := by
    rw [sub_self, abs_zero]
    exact abs_nonneg _
  even other hne he := by
    rw [sub_self, abs_zero] at he
    have hsame : magnitude ordinal = magnitude other := sub_eq_zero.mp (abs_eq_zero.mp he.symm)
    exact absurd (magnitude_strictMono.injective hsame).symm hne

private theorem abs_sub_le_of_between {low high found another : ℚ} (hlow : low ≤ q)
    (hhigh : q ≤ high)
    (hfound : found = low ∧ 2 * q ≤ low + high ∨ found = high ∧ low + high ≤ 2 * q)
    (hanother : another ≤ low ∨ high ≤ another) :
    |q - found| ≤ |q - another| ∧
      (|q - found| = |q - another| → another = found ∨ 2 * q = low + high) := by
  rcases hfound with ⟨rfl, hm⟩ | ⟨rfl, hm⟩
  · rw [abs_of_nonneg (sub_nonneg.mpr hlow)]
    rcases hanother with h | h
    · rw [abs_of_nonneg (by linarith)]
      exact ⟨by linarith, fun he => .inl (by linarith)⟩
    · rw [abs_of_nonpos (by linarith)]
      exact ⟨by linarith, fun he => .inr (by linarith)⟩
  · rw [abs_of_nonpos (sub_nonpos.mpr hhigh)]
    rcases hanother with h | h
    · rw [abs_of_nonneg (by linarith)]
      exact ⟨by linarith, fun he => .inr (by linarith)⟩
    · rw [abs_of_nonpos (by linarith)]
      exact ⟨by linarith, fun he => .inl (by linarith)⟩

theorem isClosest_of_between {found : Nat} (hlow : magnitude ordinal ≤ q)
    (hhigh : q ≤ magnitude (ordinal + 1))
    (hfound : found = ordinal ∧ 2 * q ≤ magnitude ordinal + magnitude (ordinal + 1) ∨
      found = ordinal + 1 ∧ magnitude ordinal + magnitude (ordinal + 1) ≤ 2 * q)
    (heven : 2 * q = magnitude ordinal + magnitude (ordinal + 1) → Even found) :
    IsClosest q found := by
  have hclose (other : Nat) := abs_sub_le_of_between hlow hhigh
    (hfound.imp (And.imp_left (congrArg magnitude)) (And.imp_left (congrArg magnitude)))
    ((Nat.lt_or_ge ordinal other).symm.imp (fun h => magnitude_strictMono.monotone h)
      (fun h => magnitude_strictMono.monotone h) : magnitude other ≤ _ ∨ _ ≤ magnitude other)
  refine ⟨fun other => (hclose other).1, fun other hne he => ?_⟩
  rcases (hclose other).2 he with h | h
  · exact absurd (magnitude_strictMono.injective h) hne
  · exact heven h

private theorem abs_sub_lt_of_middle {low mid high : ℚ} (hlow : low < mid) (hhigh : mid < high)
    (he : |q - low| = |q - high|) : |q - mid| < |q - low| := by
  have hmiddle : 2 * q = low + high := by
    rcases abs_eq_abs.mp he with h | h <;> linarith
  rw [abs_of_pos (by linarith : 0 < q - low), abs_lt]
  constructor <;> linarith

/-- Two magnitudes that are as close have the fraction in their middle, and both numbers are even, so
there is a closer one between them. -/
theorem IsClosest.unique (h : IsClosest q ordinal) (ho : IsClosest q other) : other = ordinal := by
  by_contra hne
  wlog hlt : ordinal < other generalizing ordinal other
  · exact this ho h (Ne.symm hne) (lt_of_le_of_ne (Nat.not_lt.mp hlt) hne)
  have heq : |q - magnitude ordinal| = |q - magnitude other| := le_antisymm (h.le _) (ho.le _)
  obtain ⟨m, hm⟩ := h.even other hne heq
  obtain ⟨n, hn⟩ := ho.even ordinal (Ne.symm hne) heq.symm
  have hleft : magnitude ordinal < magnitude (ordinal + 1) := magnitude_strictMono (by omega)
  have hright : magnitude (ordinal + 1) < magnitude other := magnitude_strictMono (by omega)
  exact absurd (h.le (ordinal + 1)) (not_le_of_gt (abs_sub_lt_of_middle hleft hright heq))

theorem RoundsTo.unique {x y : Float} (h : RoundsTo q x) (ho : RoundsTo q y) : y = x := by
  obtain ⟨ordinal, hc, rfl⟩ := h
  obtain ⟨other, hd, rfl⟩ := ho
  rw [hc.unique hd]

theorem roundsTo_zero (hq : 0 ≤ q) (hsmall : 2 * q ≤ 2 ^ leastExponent) :
    RoundsTo q (ofOrdinal false 0) := by
  have hone : magnitude 1 = 2 ^ leastExponent := by
    simpa using @magnitude_eq 0 1 (by decide) (.inl rfl)
  refine ⟨0, @isClosest_of_between q 0 0 ?_ ?_ (.inl ⟨rfl, ?_⟩) fun _ => .zero, rfl⟩
  · rw [magnitude_zero]
    exact hq
  · rw [zero_add, hone]
    linarith
  · rw [zero_add, hone, magnitude_zero, zero_add]
    exact hsmall

theorem magnitude_infinite : magnitude infiniteOrdinal = 2 ^ (1024 : Int) := by
  have hbinade : ((binade : Nat) : ℚ) = 2 ^ (52 : Int) := by norm_num [binade]
  rw [show infiniteOrdinal = 2046 * binade + binade by decide, magnitude_eq (by decide) (.inr le_rfl),
    hbinade, ← zpow_add₀ two_ne_zero]
  rfl

theorem IsClosest.le_of_le (h : IsClosest q ordinal) (hq : magnitude other ≤ q) :
    other ≤ ordinal := by
  by_contra hlt
  have hmono := magnitude_strictMono (Nat.not_le.mp hlt)
  have hle := h.le other
  rw [abs_of_nonneg (by linarith), abs_of_nonneg (by linarith)] at hle
  linarith

theorem zpow_eq_div {base : ℚ} (hb : base ≠ 0) (power : Int) :
    base ^ power = base ^ power.toNat / base ^ (-power).toNat := by
  rw [← zpow_natCast, ← zpow_natCast, ← zpow_sub₀ hb, Int.toNat_sub_toNat_neg]

private theorem scaled_le_iff (hd : denominator ≠ 0) (power : Int) :
    denominator * Nat.pow 2 power.toNat ≤ numerator * Nat.pow 2 (-power).toNat ↔
      (2 : ℚ) ^ power ≤ numerator / denominator := by
  rw [zpow_eq_div two_ne_zero, div_le_div_iff₀ (by positivity) (by positivity), mul_comm]
  simp only [Nat.pow_eq]
  norm_cast

theorem log2Quotient_spec (hn : numerator ≠ 0) (hd : denominator ≠ 0) :
    (2 : ℚ) ^ log2Quotient numerator denominator ≤ numerator / denominator ∧
      (numerator / denominator : ℚ) < 2 ^ (log2Quotient numerator denominator + 1) := by
  have hnlow : (2 : ℚ) ^ (numerator.log2 : Int) ≤ numerator := by
    exact_mod_cast Nat.log2_self_le hn
  have hnhigh : (numerator : ℚ) < 2 ^ (numerator.log2 + 1 : Int) := by
    exact_mod_cast Nat.lt_log2_self
  have hdlow : (2 : ℚ) ^ (denominator.log2 : Int) ≤ denominator := by
    exact_mod_cast Nat.log2_self_le hd
  have hdhigh : (denominator : ℚ) < 2 ^ (denominator.log2 + 1 : Int) := by
    exact_mod_cast Nat.lt_log2_self
  have hpos : (0 : ℚ) < denominator := by positivity
  have hlow : (2 : ℚ) ^ (numerator.log2 - denominator.log2 - 1 : Int) ≤ numerator / denominator := by
    rw [le_div_iff₀ hpos]
    calc (2 : ℚ) ^ (numerator.log2 - denominator.log2 - 1 : Int) * denominator
        ≤ 2 ^ (numerator.log2 - denominator.log2 - 1 : Int) * 2 ^ (denominator.log2 + 1 : Int) := by
          gcongr
      _ = 2 ^ (numerator.log2 : Int) := by
          rw [← zpow_add₀ two_ne_zero]
          congr 1
          ring
      _ ≤ numerator := hnlow
  have hhigh : (numerator / denominator : ℚ) < 2 ^ (numerator.log2 - denominator.log2 + 1 : Int) := by
    rw [div_lt_iff₀ hpos]
    calc (numerator : ℚ) < 2 ^ (numerator.log2 + 1 : Int) := hnhigh
      _ = 2 ^ (numerator.log2 - denominator.log2 + 1 : Int) * 2 ^ (denominator.log2 : Int) := by
          rw [← zpow_add₀ two_ne_zero]
          congr 1
          ring
      _ ≤ 2 ^ (numerator.log2 - denominator.log2 + 1 : Int) * denominator := by gcongr
  simp only [log2Quotient, scaled_le_iff hd]
  split
  · exact ⟨‹_›, hhigh⟩
  · rw [sub_add_cancel]
    exact ⟨hlow, lt_of_not_ge ‹_›⟩

theorem roundQuotient_spec (hd : denominator ≠ 0) :
    (roundQuotient numerator denominator = numerator / denominator ∧
        2 * (numerator / denominator : ℚ) ≤ 2 * (numerator / denominator : Nat) + 1 ∨
      roundQuotient numerator denominator = numerator / denominator + 1 ∧
        2 * (numerator / denominator : Nat) + 1 ≤ 2 * (numerator / denominator : ℚ)) ∧
    (2 * (numerator / denominator : ℚ) = 2 * (numerator / denominator : Nat) + 1 →
      Even (roundQuotient numerator denominator)) := by
  have hpos : (0 : ℚ) < denominator := by positivity
  have hdivision : (numerator : ℚ) =
      denominator * (numerator / denominator : Nat) + (numerator % denominator : Nat) := by
    exact_mod_cast (Nat.div_add_mod numerator denominator).symm
  have htwice : 2 * (numerator / denominator : ℚ) = 2 * (numerator / denominator : Nat) +
      (2 * (numerator % denominator) : Nat) / denominator := by
    rw [hdivision]
    push_cast
    field_simp
  rw [htwice]
  simp only [roundQuotient]
  split
  · rename_i h
    have hlt : ((2 * (numerator % denominator) : Nat) : ℚ) / denominator < 1 := by
      rw [div_lt_one hpos]
      exact_mod_cast h
    exact ⟨.inl ⟨rfl, by linarith⟩, fun he => absurd he (by linarith)⟩
  · split
    · rename_i h
      have hlt : 1 < ((2 * (numerator % denominator) : Nat) : ℚ) / denominator := by
        rw [one_lt_div hpos]
        exact_mod_cast h
      exact ⟨.inr ⟨rfl, by linarith⟩, fun he => absurd he (by linarith)⟩
    · have hone : ((2 * (numerator % denominator) : Nat) : ℚ) / denominator = 1 := by
        rw [div_eq_one_iff_eq hpos.ne']
        exact_mod_cast (by omega : 2 * (numerator % denominator) = denominator)
      rw [hone]
      refine ⟨?_, fun _ => ?_⟩
      · rcases Nat.mod_two_eq_zero_or_one (numerator / denominator) with h | h
        · exact .inl ⟨by rw [h]; rfl, le_rfl⟩
        · exact .inr ⟨by rw [h], le_rfl⟩
      · rw [Nat.even_iff]
        omega

private theorem isClosest_of_grid (hd : denominator ≠ 0)
    (hq : q = (numerator / denominator : ℚ) * 2 ^ (leastExponent + above))
    (hhigh : (numerator / denominator : ℚ) < (2 * binade : Nat))
    (hlow : above = 0 ∨ ((binade : Nat) : ℚ) ≤ numerator / denominator) :
    IsClosest q (above * binade + roundQuotient numerator denominator) := by
  have hpos : (0 : ℚ) < denominator := by positivity
  have hgrid : (0 : ℚ) < 2 ^ (leastExponent + above) := by positivity
  have hquotient : numerator / denominator < 2 * binade := by
    rw [div_lt_iff₀ hpos] at hhigh
    exact Nat.div_lt_of_lt_mul (by rw [mul_comm]; exact_mod_cast hhigh)
  have hfirst : above = 0 ∨ binade ≤ numerator / denominator := by
    refine hlow.imp_right fun h => ?_
    rw [le_div_iff₀ hpos] at h
    exact (Nat.le_div_iff_mul_le (Nat.pos_of_ne_zero hd)).mpr (by exact_mod_cast h)
  have hthis := magnitude_eq hquotient.le hfirst
  have hnext := magnitude_eq hquotient (hfirst.imp_right Nat.le_succ_of_le)
  obtain ⟨hside, heven⟩ := @roundQuotient_spec numerator denominator hd
  have hbelow : ((numerator / denominator : Nat) : ℚ) ≤ numerator / denominator := Nat.cast_div_le
  have habove : (numerator / denominator : ℚ) ≤ (numerator / denominator + 1 : Nat) := by
    rw [div_le_iff₀ hpos]
    rw [mul_comm]
    exact_mod_cast (Nat.lt_mul_div_succ numerator (Nat.pos_of_ne_zero hd)).le
  have hmiddle : magnitude (above * binade + numerator / denominator) +
      magnitude (above * binade + numerator / denominator + 1) =
      (2 * (numerator / denominator : Nat) + 1) * 2 ^ (leastExponent + above) := by
    rw [add_assoc, hthis, hnext]
    push_cast
    ring
  have hdouble : 2 * q = 2 * (numerator / denominator : ℚ) * 2 ^ (leastExponent + above) := by
    rw [hq, mul_assoc]
  refine @isClosest_of_between q (above * binade + numerator / denominator) _ ?_ ?_ ?_ ?_
  · rw [hthis, hq]
    gcongr
  · rw [add_assoc, hnext, hq]
    gcongr
  · rw [hmiddle, hdouble]
    refine hside.imp (fun h => ⟨by rw [h.1], ?_⟩) (fun h => ⟨by rw [h.1, add_assoc], ?_⟩)
    · have := h.2
      gcongr
    · have := h.2
      gcongr
  · rw [hmiddle, hdouble, mul_left_inj' hgrid.ne']
    intro h
    exact ((Nat.even_iff.mpr rfl : Even binade).mul_left above).add (heven h)

/-- The double that is found for a fraction has the magnitude closest to it. -/
theorem nearest_isClosest (negative : Bool) (hd : denominator ≠ 0) :
    ∃ ordinal, IsClosest (numerator / denominator) ordinal ∧
      ofOrdinal negative ordinal = nearest negative numerator denominator := by
  by_cases hn : numerator = 0
  · subst hn
    refine ⟨0, ?_, by simp [nearest]⟩
    have hone : 0 < magnitude 1 := magnitude_zero ▸ magnitude_strictMono Nat.one_pos
    refine @isClosest_of_between _ 0 0 ?_ ?_ (.inl ⟨rfl, ?_⟩) fun _ => .zero
    all_goals simp [magnitude_zero, hone.le]
  · obtain ⟨hlow, hhigh⟩ := log2Quotient_spec hn hd
    simp only [nearest, if_neg hn]
    generalize log2Quotient numerator denominator = log at *
    obtain ⟨above, habove⟩ : ∃ above : Nat, max leastExponent (log - 52) = leastExponent + above :=
      ⟨(max leastExponent (log - 52) - leastExponent).toNat, by omega⟩
    rw [habove, add_sub_cancel_left, Int.toNat_natCast]
    generalize he : leastExponent + (above : Int) = exponent at *
    have hgrid : (0 : ℚ) < 2 ^ exponent := by positivity
    have hscaled : ((numerator * Nat.pow 2 (-exponent).toNat : Nat) : ℚ) /
        (denominator * Nat.pow 2 exponent.toNat : Nat) = numerator / denominator / 2 ^ exponent := by
      rw [zpow_eq_div two_ne_zero exponent]
      simp only [Nat.pow_eq]
      push_cast
      field_simp
    refine ⟨_, isClosest_of_grid ?_ ?_ ?_ ?_, rfl⟩
    · exact Nat.mul_ne_zero hd (Nat.pow_pos two_pos).ne'
    · rw [he, hscaled, div_mul_cancel₀ _ hgrid.ne']
    · rw [hscaled, div_lt_iff₀ hgrid]
      calc (numerator / denominator : ℚ) < 2 ^ (log + 1) := hhigh
        _ ≤ 2 ^ (53 + exponent) := zpow_le_zpow_right₀ one_le_two (by omega)
        _ = (2 * binade : Nat) * 2 ^ exponent := by
          rw [zpow_add₀ two_ne_zero]
          norm_num [binade]
    · rcases Nat.eq_zero_or_pos above with h | h
      · exact .inl h
      · right
        rw [hscaled, le_div_iff₀ hgrid]
        calc (binade : ℚ) * 2 ^ exponent = 2 ^ (52 + exponent) := by
              rw [zpow_add₀ two_ne_zero]
              norm_num [binade]
          _ = 2 ^ log := by
              congr 1
              omega
          _ ≤ numerator / denominator := hlow

theorem roundsTo_nearest (hd : denominator ≠ 0) :
    RoundsTo (numerator / denominator) (nearest false numerator denominator) :=
  nearest_isClosest false hd

theorem roundsTo_infinite (hd : denominator ≠ 0)
    (hlarge : (2 : ℚ) ^ (1024 : Int) ≤ numerator / denominator) :
    RoundsTo (numerator / denominator) (ofOrdinal false infiniteOrdinal) := by
  obtain ⟨ordinal, hc, -⟩ := @nearest_isClosest numerator denominator false hd
  refine ⟨ordinal, hc, ?_⟩
  rw [← magnitude_infinite] at hlarge
  rw [ofOrdinal, ofOrdinal, min_eq_right (hc.le_of_le hlarge), min_self]

private theorem toBits_ofBits {bits : UInt64}
    (h : bits.toNat / binade % 2048 = 2047 → bits.toNat % binade = 0) :
    (Float.ofBits bits).toBits = bits := by
  have hvalid : Float.Model.Format.binary64.Valid bits.toBitVec := by
    refine ⟨fun he hm => absurd (BitVec.eq_of_toNat_eq ?_) hm⟩
    have he := congrArg BitVec.toNat he
    simp [Float.Model.UnpackedFloat.unpackExponent, Float.Model.UnpackedFloat.unpackMantissa,
      Nat.shiftRight_eq_div_pow] at he ⊢
    exact h he
  exact congrArg Float.toBits (Float.ofBits_toBits ⟨⟨bits, hvalid⟩⟩)

theorem toNat_toBits_ofOrdinal (negative : Bool) (ordinal : Nat) :
    (ofOrdinal negative ordinal).toBits.toNat =
      (if negative then signBit else 0) + min ordinal infiniteOrdinal := by
  have hbits : (UInt64.ofNat (if negative then signBit + min ordinal infiniteOrdinal
      else min ordinal infiniteOrdinal)).toNat =
      (if negative then signBit else 0) + min ordinal infiniteOrdinal := by
    rw [UInt64.toNat_ofNat']
    simp only [signBit, infiniteOrdinal, binade]
    split <;> omega
  rw [ofOrdinal, toBits_ofBits, hbits]
  rw [hbits]
  simp only [signBit, infiniteOrdinal, binade]
  split <;> omega

theorem view_ofOrdinal (negative : Bool) (h : ordinal < infiniteOrdinal) :
    view (ofOrdinal negative ordinal) = .finite negative
      (ordinal - exponentAbove ordinal * binade) (leastExponent + exponentAbove ordinal) := by
  have hfields (offset : Nat) (ho : offset = 0 ∨ offset = signBit) :
      (offset + ordinal) / binade % 2048 = ordinal / binade ∧
        (offset + ordinal) % binade = ordinal % binade ∧
        (signBit ≤ offset + ordinal ↔ offset = signBit) := by
    simp only [signBit, infiniteOrdinal, binade] at *
    omega
  obtain ⟨hfield, hfraction, hsign⟩ :=
    hfields (if negative then signBit else 0) (by cases negative <;> simp)
  have hnegative : decide (signBit ≤ (if negative then signBit else 0) + ordinal) = negative := by
    have hsame : (if negative then signBit else 0) = signBit ↔ negative = true := by
      cases negative <;> simp [signBit, binade]
    rw [Bool.eq_iff_iff, decide_eq_true_iff, hsign, hsame]
  simp only [view, toNat_toBits_ofOrdinal, min_eq_left h.le, hfield, hfraction, hnegative,
    exponentAbove]
  rw [if_neg (by simp only [infiniteOrdinal, binade] at *; omega)]
  split
  · rename_i hz
    have hs : ordinal % binade = ordinal := by
      simp only [binade] at *
      omega
    rw [hs, hz, Nat.zero_sub, Nat.zero_mul, Nat.sub_zero, Nat.cast_zero, add_zero]
  · have hs : binade + ordinal % binade = ordinal - (ordinal / binade - 1) * binade := by
      simp only [binade] at *
      omega
    rw [hs]

theorem view_ofOrdinal_infinite (negative : Bool) (h : infiniteOrdinal ≤ ordinal) :
    view (ofOrdinal negative ordinal) = .infinite negative := by
  simp only [view, toNat_toBits_ofOrdinal, min_eq_right h]
  cases negative <;> decide

end

end VectorFormula.Number
