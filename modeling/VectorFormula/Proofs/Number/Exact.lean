import Mathlib
import VectorFormula.Proofs.Number.Whole
/-!
Doubles as fractions. The whole part of a finite double is the next whole number on the side of
zero (`truncate?_eq`), and it is safe just if the magnitude of the double is
(`isSafe_towardZero`).
-/
namespace VectorFormula.Number

open Float.Model.Format (binary64)
open Float.Model.UnpackedFloat (unpack unpackExponent)

def fraction? (x : Float) : Option ℚ :=
  match view x with
  | .finite negative significand exponent =>
    some (if negative then -(significand * 2 ^ exponent) else significand * 2 ^ exponent)
  | _ => none

/-- The whole part of a fraction, which is the next whole number on the side of zero. -/
def towardZero (q : ℚ) : Int :=
  if q < 0 then ⌈q⌉ else ⌊q⌋

section

variable {x : Float} {q : ℚ} {ordinal : Nat} {i : Int}

theorem towardZero_neg (q : ℚ) : towardZero (-q) = -towardZero q := by
  rcases lt_trichotomy q 0 with h | rfl | h
  · rw [towardZero, towardZero, if_neg (by linarith), if_pos h, Int.floor_neg]
  · simp [towardZero]
  · rw [towardZero, towardZero, if_pos (by linarith), if_neg (by linarith), Int.ceil_neg]

theorem towardZero_of_nonneg (h : 0 ≤ q) : towardZero q = ⌊q⌋₊ := by
  rw [towardZero, if_neg (not_lt_of_ge h), Int.natCast_floor_eq_floor h]

theorem towardZero_intCast (i : Int) : towardZero i = i := by
  simp [towardZero]

theorem natAbs_towardZero (q : ℚ) : (towardZero q).natAbs = ⌊|q|⌋₊ := by
  rcases le_total 0 q with h | h
  · rw [abs_of_nonneg h, towardZero_of_nonneg h, Int.natAbs_natCast]
  · rw [abs_of_nonpos h, ← Int.natAbs_neg, ← towardZero_neg,
      towardZero_of_nonneg (neg_nonneg.mpr h), Int.natAbs_natCast]

theorem magnitude_nonneg (ordinal : Nat) : 0 ≤ magnitude ordinal := by
  rw [← magnitude_zero]
  exact magnitude_strictMono.monotone (Nat.zero_le ordinal)

theorem fraction?_ofOrdinal (negative : Bool) (h : ordinal < infiniteOrdinal) :
    fraction? (ofOrdinal negative ordinal) =
      some (if negative then -magnitude ordinal else magnitude ordinal) := by
  simp only [fraction?, view_ofOrdinal negative h]
  rfl

theorem exists_of_fraction? (h : fraction? x = some q) :
    ∃ negative, ∃ ordinal < infiniteOrdinal, x = ofOrdinal negative ordinal ∧
      q = if negative then -magnitude ordinal else magnitude ordinal := by
  have hfinite : ∃ negative significand exponent, view x = .finite negative significand exponent := by
    unfold fraction? at h
    split at h
    · exact ⟨_, _, _, ‹_›⟩
    · cases h
  obtain ⟨negative, significand, exponent, hview⟩ := hfinite
  obtain ⟨ordinal, ho, rfl⟩ := exists_ofOrdinal hview
  have hfraction := fraction?_ofOrdinal negative ho
  exact ⟨negative, ordinal, ho, rfl, Option.some.inj (h.symm.trans hfraction)⟩

private theorem isFinite_unpack (bits : BitVec 64) :
    (unpack binary64 bits).isFinite = decide (@unpackExponent binary64 bits ≠ -1#11) := by
  unfold unpack
  simp only
  split
  · rename_i he
    rw [decide_eq_false (not_not_intro he)]
    split <;> rfl
  · rename_i he
    rw [decide_eq_true he]
    split
    · split <;> rfl
    · rfl

private theorem isSome_fraction? (x : Float) :
    (fraction? x).isSome = decide (x.toBits.toNat / binade % 2048 ≠ 2047) := by
  unfold fraction? view
  simp only
  split
  · rename_i hview
    split at hview
    · split at hview <;> cases hview
    · rename_i hf
      rw [decide_eq_true hf, Option.isSome_some]
  · rename_i hother
    rw [Option.isSome_none, eq_comm, decide_eq_false_iff_not, not_not]
    by_contra hf
    rw [if_neg hf] at hother
    split at hother
    · exact hother _ _ _ rfl
    · exact hother _ _ _ rfl

theorem isFinite_eq (x : Float) : x.isFinite = (fraction? x).isSome := by
  have hexponent : @unpackExponent binary64 x.toBits.toBitVec = -1#11 ↔
      x.toBits.toNat / binade % 2048 = 2047 := by
    rw [← BitVec.toNat_inj, toNat_unpackExponent]
    rfl
  rw [isSome_fraction?]
  exact (isFinite_unpack x.toBits.toBitVec).trans (decide_eq_decide.mpr hexponent.not)

theorem truncate?_eq (x : Float) : truncate? x = (fraction? x).map towardZero := by
  cases hview : view x with
  | undefined | infinite => simp only [truncate?, fraction?, hview, Option.map_none]
  | finite negative significand exponent =>
    obtain ⟨ordinal, ho, rfl⟩ := exists_ofOrdinal hview
    have hwhole := towardZero_of_nonneg (magnitude_nonneg ordinal)
    rw [truncate?_ofOrdinal negative ho, fraction?_ofOrdinal negative ho, Option.map_some]
    cases negative with
    | false => exact congrArg some hwhole.symm
    | true => exact congrArg some (by simp only [if_true, towardZero_neg, hwhole])

/-- There are no doubles between the last safe number and the one after it. -/
private theorem magnitude_le_safeLimit (h : magnitude ordinal < safeLimit + 1) :
    magnitude ordinal ≤ safeLimit := by
  -- From `2 ^ 52` to `2 ^ 53` the doubles are the whole numbers, one for each.
  have hwhole (n : Nat) (hl : binade ≤ n) (hh : n ≤ 2 * binade) :
      magnitude (1074 * binade + n) = n := by
    rw [magnitude_eq hh (.inr hl)]
    simp [leastExponent]
  have hafter : magnitude (1074 * binade + (safeLimit + 1)) = (safeLimit + 1 : Nat) :=
    hwhole _ (by decide) (by decide)
  have hlast : magnitude (1074 * binade + safeLimit) = safeLimit :=
    hwhole _ (by decide) (by decide)
  rw [← Nat.cast_succ, ← hafter, magnitude_strictMono.lt_iff_lt] at h
  rw [← hlast]
  exact magnitude_strictMono.monotone (Nat.le_of_lt_succ h)

theorem isSafe_towardZero (h : fraction? x = some q) :
    isSafe (towardZero q) = true ↔ |q| ≤ safeLimit := by
  have habs : ∃ ordinal, |q| = magnitude ordinal := by
    obtain ⟨negative, ordinal, -, -, rfl⟩ := exists_of_fraction? h
    have hpos := abs_of_nonneg (magnitude_nonneg ordinal)
    exact ⟨ordinal, by cases negative <;> simp [hpos]⟩
  obtain ⟨ordinal, ho⟩ := habs
  rw [isSafe, decide_eq_true_iff, natAbs_towardZero, ho, ← Nat.lt_succ_iff,
    Nat.floor_lt (magnitude_nonneg ordinal), Nat.cast_succ]
  exact ⟨magnitude_le_safeLimit, fun hle => lt_of_le_of_lt hle (lt_add_one _)⟩

theorem fraction?_ofInt (h : isSafe i = true) : fraction? (ofInt i) = some (i : ℚ) := by
  obtain ⟨ordinal, hc, ho⟩ := exists_ofInt i
  obtain ⟨hfinite, hmagnitude⟩ := hc.magnitude_eq (by simpa [isSafe] using h)
  rw [ho, fraction?_ofOrdinal _ hfinite, hmagnitude]
  rcases lt_or_ge i 0 with hi | hi
  · have habs : ((i.natAbs : Nat) : ℚ) = -i := by
      rw [← Int.cast_natCast, Int.natCast_natAbs, abs_of_neg hi, Int.cast_neg]
    rw [decide_eq_true hi, if_pos rfl, habs, neg_neg]
  · have habs : ((i.natAbs : Nat) : ℚ) = i := by
      rw [← Int.cast_natCast, Int.natCast_natAbs, abs_of_nonneg hi]
    rw [decide_eq_false (not_lt_of_ge hi), if_neg Bool.false_ne_true, habs]

theorem clamp64_eq (h : fraction? x = some q) :
    clamp64 x = max least64 (min greatest64 (towardZero q)) := by
  have ht : truncate? x = some (towardZero q) := by rw [truncate?_eq, h, Option.map_some]
  unfold clamp64
  rw [ht, Option.getD_some]
  unfold fraction? at h
  split at h
  · rename_i hview
    rw [hview]
  · cases h

theorem isSafe_clamp64 (h : fraction? x = some q) :
    isSafe (clamp64 x) = isSafe (towardZero q) ∧
      (isSafe (towardZero q) = true → clamp64 x = towardZero q) := by
  rw [clamp64_eq h, Bool.eq_iff_iff]
  simp only [isSafe, decide_eq_true_eq]
  simp only [least64, greatest64, safeLimit]
  omega

end

end VectorFormula.Number
