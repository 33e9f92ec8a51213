import Mathlib
import VectorFormula.Decimal.Numeral
import VectorFormula.Proofs.Decimal.Literal
import VectorFormula.Proofs.Decimal.Shortest
import VectorFormula.Proofs.Number.Sign
/-!
The numeral of a finite double reads back as the double, with its sign (`read?_numeral`).
-/
namespace VectorFormula.Decimal

open Number (binade leastExponent exponentAbove infiniteOrdinal magnitude ofOrdinal view IsClosest)
open Token.Pattern (digits mem_digits)

/-- A numeral without sign and exponent, and the fraction that it stands for. -/
inductive Plain : List Char → ℚ → Prop
  | whole {whole : List Char} : whole ∈ digits → Plain whole (digitsValue whole)
  | pointed {whole fraction : List Char} : whole ∈ digits → fraction ∈ digits →
    Plain (whole ++ '.' :: fraction)
      (digitsValue (whole ++ fraction) * 10 ^ (-fraction.length : Int))

section

variable {text body whole : List Char} {value : ℚ} {ordinal count : Nat} {grid power : Int}
  {negative : Bool}

theorem Plain.literal (h : Plain text value) : Literal text value := by
  cases h with
  | whole hw => simpa using Literal.whole hw .none
  | pointed hw hf => simpa using Literal.pointed (mem_digits.mp hw).2 hf .none

theorem Plain.exists_cons (h : Plain text value) :
    ∃ first more, first.isDigit = true ∧ text = first :: more := by
  have hfirst {front : List Char} (hw : front ∈ digits) (rest : List Char) :
      ∃ first more, first.isDigit = true ∧ front ++ rest = first :: more := by
    obtain ⟨hne, hd⟩ := mem_digits.mp hw
    obtain ⟨first, more, rfl⟩ := List.exists_cons_of_ne_nil hne
    exact ⟨first, more ++ rest, hd first List.mem_cons_self, rfl⟩
  cases h with
  | whole hw => simpa using hfirst hw []
  | pointed hw hf => exact hfirst hw _

theorem Plain.isDigit_or_point (h : Plain text value) {c : Char} (hc : c ∈ text) :
    c.isDigit = true ∨ c = '.' := by
  cases h with
  | whole hw => exact .inl ((mem_digits.mp hw).2 c hc)
  | pointed hw hf =>
    rcases List.mem_append.mp hc with hc | hc
    · exact .inl ((mem_digits.mp hw).2 c hc)
    · rcases List.mem_cons.mp hc with rfl | hc
      · exact .inr rfl
      · exact .inl ((mem_digits.mp hf).2 c hc)

theorem toDigits_mem_digits (n : Nat) : Nat.toDigits 10 n ∈ digits :=
  mem_digits.mpr ⟨Nat.toDigits_ne_nil, fun _ hc =>
    Nat.isDigit_of_mem_toDigits (by decide) (by decide) hc⟩

@[simp] theorem digitsValue_toDigits (n : Nat) : digitsValue (Nat.toDigits 10 n) = n :=
  Nat.ofDigitChars_ten_toDigits

private theorem ofDigitChars_zeros (places n : Nat) :
    Nat.ofDigitChars 10 (zeros places) n = n * 10 ^ places := by
  induction places generalizing n with
  | zero => simp [zeros]
  | succ places ih =>
    rw [zeros, List.replicate_succ, Nat.ofDigitChars_cons, ← zeros, ih, pow_succ]
    simp
    ring

theorem digitsValue_append_zeros (text : List Char) (places : Nat) :
    digitsValue (text ++ zeros places) = digitsValue text * 10 ^ places :=
  (Nat.ofDigitChars_append 0).trans (ofDigitChars_zeros places _)

theorem digitsValue_zeros_append (places : Nat) (text : List Char) :
    digitsValue (zeros places ++ text) = digitsValue text := by
  have hzero : Nat.ofDigitChars 10 (zeros places) 0 = 0 := by rw [ofDigitChars_zeros, zero_mul]
  exact (Nat.ofDigitChars_append 0).trans (by rw [hzero]; rfl)

theorem plain_positional (count : Nat) (grid : Int) :
    Plain (positional count grid) (count * 10 ^ grid) := by
  obtain ⟨hne, hdigits⟩ := mem_digits.mp (toDigits_mem_digits count)
  have hvalue := digitsValue_toDigits count
  simp only [positional]
  generalize Nat.toDigits 10 count = text at *
  have hzeros (places : Nat) : ∀ c ∈ zeros places, c.isDigit = true := by
    intro c hc
    rw [List.eq_of_mem_replicate hc]
    decide
  split
  · rename_i hgrid
    have hpower : (10 : ℚ) ^ grid = 10 ^ grid.toNat := by
      rw [← zpow_natCast, Int.toNat_of_nonneg hgrid]
    have hmem : text ++ zeros grid.toNat ∈ digits :=
      mem_digits.mpr ⟨by simp [hne], List.forall_mem_append.mpr ⟨hdigits, hzeros _⟩⟩
    simpa [digitsValue_append_zeros, hvalue, hpower] using Plain.whole hmem
  · split
    · rename_i hgrid hplaces
      have hfront : text.take (text.length - (-grid).toNat) ∈ digits := by
        refine mem_digits.mpr ⟨?_, fun c hc => hdigits c (List.mem_of_mem_take hc)⟩
        rw [Ne, List.take_eq_nil_iff, not_or]
        exact ⟨by omega, hne⟩
      have hback : text.drop (text.length - (-grid).toNat) ∈ digits := by
        refine mem_digits.mpr ⟨?_, fun c hc => hdigits c (List.mem_of_mem_drop hc)⟩
        rw [Ne, List.drop_eq_nil_iff]
        omega
      have hlength : -((text.drop (text.length - (-grid).toNat)).length : Int) = grid := by
        rw [List.length_drop]
        omega
      have hplain := Plain.pointed hfront hback
      rwa [List.take_append_drop, hvalue, hlength] at hplain
    · rename_i hgrid hplaces
      have hback : zeros ((-grid).toNat - text.length) ++ text ∈ digits :=
        mem_digits.mpr ⟨by simp [hne], List.forall_mem_append.mpr ⟨hzeros _, hdigits⟩⟩
      have hfront : ['0'] ∈ digits := mem_digits.mpr ⟨List.cons_ne_nil _ _, by simp⟩
      have hlength : -((zeros ((-grid).toNat - text.length) ++ text).length : Int) = grid := by
        rw [List.length_append, zeros, List.length_replicate]
        omega
      have hsame :
          digitsValue (['0'] ++ (zeros ((-grid).toNat - text.length) ++ text)) = count := by
        rw [← hvalue, ← digitsValue_zeros_append ((-grid).toNat - text.length) text]
        rfl
      have hplain := Plain.pointed hfront hback
      rwa [hsame, hlength] at hplain

theorem neg_ofDigits (negative : Bool) (count : Nat) (power : Int) :
    -ofDigits negative count power = ofDigits (!negative) count power := by
  unfold ofDigits
  split_ifs <;> simp

theorem ofDigits_eq (hc : IsClosest (count * 10 ^ power) ordinal) (negative : Bool) :
    ofDigits negative count power = ofOrdinal negative ordinal := by
  have hplus : ofDigits false count power = ofOrdinal false ordinal :=
    Number.RoundsTo.unique ⟨ordinal, hc, rfl⟩ (ofDigits_roundsTo count power)
  cases negative with
  | false => exact hplus
  | true => rw [← Bool.not_false, ← neg_ofDigits, hplus, Number.neg_ofOrdinal]

@[simp] theorem toList_signed (negative : Bool) (body : List Char) :
    (signed negative body).toList = if negative then '-' :: body else body :=
  String.toList_ofList

theorem Plain.read?_signed (h : Plain body value) (hc : IsClosest value ordinal)
    (negative : Bool) :
    read? (signed negative body).toList = some (ofOrdinal negative ordinal) := by
  obtain ⟨count, power, hu, rfl⟩ := unsigned?_of_literal h.literal
  have hsplit : splitSign (signed negative body).toList = (negative, body) := by
    obtain ⟨first, more, hf, rfl⟩ := h.exists_cons
    rw [toList_signed]
    cases negative with
    | true => rfl
    | false => apply splitSign_cons <;> (rintro rfl; exact absurd hf (by decide))
  simp only [read?, hsplit, hu, ofDigits_eq hc]

/-- The numeral of a finite double is a plain one with the sign of the double, and no other
magnitude is closer to it. -/
theorem exists_plain_numeral (negative : Bool) (h : ordinal < infiniteOrdinal) :
    ∃ body value, numeral (ofOrdinal negative ordinal) = signed negative body ∧
      Plain body value ∧ IsClosest value ordinal := by
  have hview := Number.view_ofOrdinal negative h
  obtain ⟨above, hexponent⟩ : ∃ above, exponentAbove ordinal = above := ⟨_, rfl⟩
  obtain ⟨significand, hs⟩ : ∃ significand, ordinal - above * binade = significand := ⟨_, rfl⟩
  rw [hexponent, hs] at hview
  have hsplit : ordinal = above * binade + significand ∧ significand < 2 * binade ∧
      (above = 0 ∨ binade ≤ significand) := by
    simp only [exponentAbove, binade] at *
    omega
  obtain ⟨rfl, hlt, hl⟩ := hsplit
  cases significand with
  | zero =>
    obtain rfl : above = 0 := hl.resolve_right (by decide)
    refine ⟨['0'], _, ?_, .whole (mem_digits.mpr ⟨List.cons_ne_nil _ _, by simp⟩), ?_⟩
    · simp only [numeral, textBy, hview]
    · have hzero : ((digitsValue ['0'] : Nat) : ℚ) = magnitude 0 := by
        rw [Number.magnitude_zero]
        rfl
      rw [hzero]
      exact Number.isClosest_magnitude 0
  | succ lower =>
    refine ⟨_, _, ?_, plain_positional _ _, isClosest_shortest lower.succ_pos hlt hl⟩
    simp only [numeral, textBy, hview]

theorem read?_numeral {x : Float} {significand : Nat} {exponent : Int}
    (h : view x = .finite negative significand exponent) : read? (numeral x).toList = some x := by
  obtain ⟨ordinal, ho, rfl⟩ := Number.exists_ofOrdinal h
  obtain ⟨body, value, hn, hp, hc⟩ := exists_plain_numeral negative ho
  rw [hn, hp.read?_signed hc]

end

end VectorFormula.Decimal
