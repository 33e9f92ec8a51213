import Mathlib
import VectorFormula.Proofs.Number.Nearest
/-!
Signs of doubles. A finite double is its sign and the number of its magnitude
(`exists_ofOrdinal`), and negation changes the sign alone (`neg_ofOrdinal`).
-/
namespace VectorFormula.Number

open Float.Model (UnpackedFloat)
open Float.Model.Format (binary64)
open Float.Model.UnpackedFloat (Sign pack packComponents unpack unpackExponent unpackMantissa
  unpackSign)

private theorem toNat_packComponents (sign : Sign) (exponent : BitVec 11) (mantissa : BitVec 52) :
    (packComponents binary64 sign exponent mantissa).toNat =
      sign.toBitVec.toNat * signBit + exponent.toNat * binade + mantissa.toNat := by
  have happend : (packComponents binary64 sign exponent mantissa).toNat =
      (sign.toBitVec.toNat <<< 11 ||| exponent.toNat) <<< 52 ||| mantissa.toNat :=
    (BitVec.toNat_append _ _).trans (congrArg (· <<< 52 ||| _) (BitVec.toNat_append _ _))
  rw [happend, ← Nat.shiftLeft_add_eq_or_of_lt exponent.isLt,
    ← Nat.shiftLeft_add_eq_or_of_lt mantissa.isLt, Nat.shiftLeft_eq, Nat.shiftLeft_eq]
  simp only [signBit, binade]
  omega

private theorem pack_normal {sign : Sign} {exponent : BitVec 11} {mantissa : BitVec 52}
    (he : exponent ≠ -1#11) (hm : 0 < (1#1 ++ mantissa).toNat) :
    pack binary64 (.finite sign (1#1 ++ mantissa).toNat
      (exponent.toNat - (binary64.exponentBias + binary64.mantissaBitsWithoutImplicit)) hm) =
      packComponents binary64 sign exponent mantissa := by
  have hfield : exponent.toNat + 1 < 2 ^ 11 := by
    have hne : exponent.toNat ≠ (-1#11).toNat := fun h => he (BitVec.eq_of_toNat_eq h)
    have hlt := exponent.isLt
    simp at hne
    omega
  have hnat : (1#1 ++ mantissa).toNat = 2 ^ 52 + mantissa.toNat := by
    rw [BitVec.toNat_append, ← Nat.shiftLeft_add_eq_or_of_lt mantissa.isLt]
    rfl
  have hlog : (1#1 ++ mantissa).toNat.log2 + 1 = binary64.mantissaBits := by
    have hlt := mantissa.isLt
    have hlog : (2 ^ 52 + mantissa.toNat).log2 = 52 :=
      (Nat.log2_eq_iff (by omega)).mpr ⟨by omega, by omega⟩
    rw [hnat, hlog]
    rfl
  have hbias : ((exponent.toNat : Int) -
      (binary64.exponentBias + binary64.mantissaBitsWithoutImplicit) +
      binary64.exponentBias + binary64.mantissaBitsWithoutImplicit).toNat = exponent.toNat := by
    omega
  have hmantissa : BitVec.ofNat 52 (1#1 ++ mantissa).toNat = mantissa := by
    apply BitVec.eq_of_toNat_eq
    rw [BitVec.toNat_ofNat, hnat, Nat.add_mod_left, Nat.mod_eq_of_lt mantissa.isLt]
  simp only [pack]
  rw [hbias, if_neg (Nat.not_le.mpr hfield), if_pos hlog]
  exact congrArg₂ _ (by simp) hmantissa

private theorem pack_subnormal {sign : Sign} {mantissa : BitVec 52} (hm : 0 < mantissa.toNat) :
    pack binary64 (.finite sign mantissa.toNat
      ((0#11).toNat - (binary64.exponentBias + binary64.mantissaBitsWithoutImplicit) + 1) hm) =
      packComponents binary64 sign 0#11 mantissa := by
  have hlog : mantissa.toNat.log2 + 1 ≠ binary64.mantissaBits := by
    have hlt : mantissa.toNat.log2 < 52 := (Nat.log2_lt hm.ne').mpr mantissa.isLt
    exact (Nat.succ_lt_succ hlt).ne
  simp only [pack]
  rw [if_neg (by decide), if_neg hlog]
  exact congrArg _ (by simp)

private theorem pack_neg_unpack {bits : BitVec 64}
    (h : @unpackExponent binary64 bits = -1#11 →
      @unpackMantissa binary64 bits = 0#52) :
    pack binary64 (unpack binary64 bits).neg = packComponents binary64
      (-Sign.ofBitVec (@unpackSign binary64 bits)) (unpackExponent bits)
      (unpackMantissa bits) := by
  -- The cases are those of `unpack`: infinity, zero, the lowest exponent, and all others.
  unfold unpack
  simp only
  split
  · rename_i he
    rw [if_pos (h he)]
    simp only [UnpackedFloat.neg, pack, UnpackedFloat.packedInfinity, he, h he]
    rfl
  · rename_i he
    split
    · rename_i hz
      split
      · rename_i hm
        simp only [UnpackedFloat.neg, pack, UnpackedFloat.packedZero, hz, hm]
        rfl
      · rw [hz]
        exact pack_subnormal _
    · exact pack_normal he _

section

variable {x y : Float} {negative : Bool} {ordinal significand : Nat} {exponent : Int}

theorem eq_of_toNat_toBits (h : x.toBits.toNat = y.toBits.toNat) : x = y := by
  rw [← Float.ofBits_toBits x, UInt64.toNat_inj.mp h, Float.ofBits_toBits]

theorem toNat_unpackExponent (x : Float) :
    (@unpackExponent binary64 x.toBits.toBitVec).toNat = x.toBits.toNat / binade % 2048 := by
  simp [unpackExponent, Nat.shiftRight_eq_div_pow, binade]

theorem toNat_toBits_neg (h : view x ≠ .undefined) :
    (-x).toBits.toNat =
      if signBit ≤ x.toBits.toNat then x.toBits.toNat - signBit else signBit + x.toBits.toNat := by
  have hmantissa : (@unpackMantissa binary64 x.toBits.toBitVec).toNat =
      x.toBits.toNat % binade := by
    simp [unpackMantissa, binade]
  have hsign : (@unpackSign binary64 x.toBits.toBitVec).toNat =
      x.toBits.toNat / signBit % 2 := by
    simp [unpackSign, Nat.shiftRight_eq_div_pow, signBit, binade]
  have hflip : ∀ bit : BitVec 1, (-Sign.ofBitVec bit).toBitVec.toNat = 1 - bit.toNat := by decide
  have hneg : (-x).toBits.toNat =
      (pack binary64 (unpack binary64 x.toBits.toBitVec).neg).toNat := rfl
  rw [hneg, pack_neg_unpack, toNat_packComponents, hflip, hsign, toNat_unpackExponent, hmantissa]
  · have hlt := x.toBits.toNat_lt
    split <;> simp only [signBit, binade] at * <;> omega
  · intro he
    have hfield : x.toBits.toNat / binade % 2048 = 2047 := by
      rw [← toNat_unpackExponent, he]
      rfl
    have hzero : x.toBits.toNat % binade = 0 := by
      by_contra hne
      exact h (by simp only [view, if_pos hfield, if_neg hne])
    exact BitVec.eq_of_toNat_eq (hmantissa.trans hzero)

@[simp] theorem neg_ofOrdinal (negative : Bool) (ordinal : Nat) :
    -ofOrdinal negative ordinal = ofOrdinal (!negative) ordinal := by
  have hview : view (ofOrdinal negative ordinal) ≠ .undefined := by
    rcases Nat.lt_or_ge ordinal infiniteOrdinal with h | h
    · simp [view_ofOrdinal negative h]
    · simp [view_ofOrdinal_infinite negative h]
  apply eq_of_toNat_toBits
  rw [toNat_toBits_neg hview, toNat_toBits_ofOrdinal, toNat_toBits_ofOrdinal]
  cases negative <;> simp [signBit, infiniteOrdinal, binade]

@[simp] theorem neg_nearest (negative : Bool) (numerator denominator : Nat) :
    -nearest negative numerator denominator = nearest (!negative) numerator denominator := by
  unfold nearest
  split <;> exact neg_ofOrdinal _ _

theorem exists_ofOrdinal (h : view x = .finite negative significand exponent) :
    ∃ ordinal < infiniteOrdinal, x = ofOrdinal negative ordinal := by
  have hlt := x.toBits.toNat_lt
  have hfield : x.toBits.toNat / binade % 2048 ≠ 2047 := by
    intro hf
    simp only [view, if_pos hf] at h
    split at h <;> cases h
  have hordinal : x.toBits.toNat % signBit < infiniteOrdinal := by
    simp only [signBit, infiniteOrdinal, binade] at *
    omega
  have hnegative : negative = decide (signBit ≤ x.toBits.toNat) := by
    simp only [view, if_neg hfield] at h
    split at h <;> cases h <;> rfl
  refine ⟨_, hordinal, eq_of_toNat_toBits ?_⟩
  rw [toNat_toBits_ofOrdinal, min_eq_left hordinal.le, hnegative]
  simp only [decide_eq_true_eq]
  split <;> simp only [signBit, binade] at * <;> omega

/-- Whether a double is one without a sign: a magnitude, or infinity. -/
def Unsigned (x : Float) : Prop :=
  ∃ ordinal, ofOrdinal false ordinal = x

theorem unsigned_zero : Unsigned 0.0 :=
  ⟨0, rfl⟩

theorem RoundsTo.unsigned {q : ℚ} (h : RoundsTo q x) : Unsigned x := by
  obtain ⟨ordinal, -, ho⟩ := h
  exact ⟨ordinal, ho⟩

theorem Unsigned.ne_neg_zero (h : Unsigned x) : x ≠ -0 := by
  obtain ⟨ordinal, rfl⟩ := h
  intro he
  have hzero : (-0 : Float) = ofOrdinal true 0 := rfl
  have hbits := congrArg (·.toBits.toNat) (he.trans hzero)
  simp only [toNat_toBits_ofOrdinal] at hbits
  simp [signBit, infiniteOrdinal, binade] at hbits
  omega

theorem Unsigned.eq_of_beq (hx : Unsigned x) (hy : Unsigned y) (h : (x == y) = true) : x = y := by
  obtain ⟨-, -, h | ⟨-, h⟩ | ⟨h, -⟩⟩ := Float.beq_iff_ne_nan_and_eq.mp h
  · exact h
  · exact absurd h hy.ne_neg_zero
  · exact absurd h hx.ne_neg_zero

end

end VectorFormula.Number
