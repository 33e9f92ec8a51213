import Mathlib
import VectorFormula.Proofs.Number.Nearest
import VectorFormula.Proofs.Token.Pattern
/-!
What numbers in a text stand for. A number with at most one point is read as the double that its
decimal fraction rounds to, and one with more points is not read (`read?_of_number`).
-/
namespace VectorFormula.Decimal

open Number (RoundsTo)
open Token.Pattern (digits mem_digits number pointed)
open scoped Computability

/-- What may follow the digits of a number, and the power of ten that it stands for. -/
inductive Power : List Char → Int → Prop
  | none : Power [] 0
  | plain {mark : Char} {count : List Char} :
    mark = 'e' ∨ mark = 'E' → count ∈ digits → Power (mark :: count) (digitsValue count)
  | plus {mark : Char} {count : List Char} :
    mark = 'e' ∨ mark = 'E' → count ∈ digits → Power (mark :: '+' :: count) (digitsValue count)
  | minus {mark : Char} {count : List Char} :
    mark = 'e' ∨ mark = 'E' → count ∈ digits → Power (mark :: '-' :: count) (-digitsValue count)

/-- The fraction that a number with at most one point stands for. -/
inductive Literal : List Char → ℚ → Prop
  | whole {whole tail : List Char} {power : Int} :
    whole ∈ digits → Power tail power →
    Literal (whole ++ tail) (digitsValue whole * 10 ^ power)
  | pointed {whole fraction tail : List Char} {power : Int} :
    (∀ c ∈ whole, c.isDigit = true) → fraction ∈ digits → Power tail power →
    Literal (whole ++ '.' :: (fraction ++ tail))
      (digitsValue (whole ++ fraction) * 10 ^ (power - fraction.length))

section

variable {text slice tail whole : List Char} {value : ℚ} {power : Int}

theorem exponent?_of_power (h : Power tail power) : exponent? tail = some power := by
  have hcount {count : List Char} (hc : count ∈ digits) :
      count ≠ [] ∧ count.all Char.isDigit = true := by
    rw [List.all_eq_true]
    exact mem_digits.mp hc
  cases h with
  | none => rfl
  | @plain mark count hm hc =>
    have hsplit : splitSign count = (false, count) := by
      simpa using Token.Pattern.splitSign_of_digits hc []
    rw [exponent?, if_pos hm, hsplit]
    exact if_pos (hcount hc)
  | plus hm hc =>
    rw [exponent?, if_pos hm]
    exact if_pos (hcount hc)
  | minus hm hc =>
    rw [exponent?, if_pos hm]
    exact if_pos (hcount hc)

theorem exists_power (h : tail ∈ 1 + Token.Pattern.exponent) : ∃ power, Power tail power := by
  rcases h with rfl | h
  · exact ⟨0, .none⟩
  · obtain ⟨mark, count, hm, hc, rfl | ⟨sign, rfl | rfl, rfl⟩⟩ := Token.Pattern.mem_exponent.mp h
    · exact ⟨_, .plain hm hc⟩
    · exact ⟨_, .plus hm hc⟩
    · exact ⟨_, .minus hm hc⟩

private theorem ne_point_of_digit {c : Char} (h : c.isDigit = true) : c ≠ '.' := by
  rintro rfl
  exact absurd h (by decide)

private theorem Power.head (h : Power tail power) {c : Char} (hc : tail.head? = some c) :
    c.isDigit = false ∧ c ≠ '.' := by
  cases h with
  | none => cases hc
  | plain hm | plus hm | minus hm =>
    obtain rfl := Option.some.inj hc
    rcases hm with rfl | rfl <;> decide

private theorem Power.count_point (h : Power tail power) : tail.count '.' = 0 := by
  have hdigits {count : List Char} (hc : count ∈ digits) : '.' ∉ count := fun hp =>
    ne_point_of_digit ((mem_digits.mp hc).2 _ hp) rfl
  rw [List.count_eq_zero]
  cases h with
  | none => exact List.not_mem_nil
  | plain hm hc | plus hm hc | minus hm hc => rcases hm with rfl | rfl <;> simp [hdigits hc]

private theorem span_digits (hw : ∀ c ∈ whole, c.isDigit = true)
    (ht : ∀ c, tail.head? = some c → c.isDigit = false) :
    (whole ++ tail).takeWhile Char.isDigit = whole ∧
      (whole ++ tail).dropWhile Char.isDigit = tail := by
  rw [List.takeWhile_append_of_pos hw, List.dropWhile_append_of_pos hw]
  cases tail with
  | nil => simp
  | cons c rest => simp [ht c rfl]

theorem unsigned?_of_literal (h : Literal text value) :
    ∃ digits power, unsigned? text = some (digits, power) ∧ value = digits * 10 ^ power := by
  cases h with
  | @whole whole tail power hw hp =>
    obtain ⟨hne, hd⟩ := mem_digits.mp hw
    obtain ⟨htake, hdrop⟩ := span_digits hd fun c hc => (hp.head hc).1
    have hpoint : ∀ rest, tail ≠ '.' :: rest := by
      rintro rest rfl
      exact (hp.head rfl).2 rfl
    refine ⟨digitsValue whole, power, ?_, rfl⟩
    simp [unsigned?, htake, hdrop, hne, exponent?_of_power hp]
  | @pointed whole fraction tail power hw hf hp =>
    obtain ⟨hne, hd⟩ := mem_digits.mp hf
    obtain ⟨htake, hdrop⟩ := @span_digits ('.' :: (fraction ++ tail)) whole hw (by simp)
    obtain ⟨hfirst, hrest⟩ := span_digits hd fun c hc => (hp.head hc).1
    refine ⟨digitsValue (whole ++ fraction), power - fraction.length, ?_, rfl⟩
    simp [unsigned?, htake, hdrop, hfirst, hrest, hne, exponent?_of_power hp]

theorem Literal.unique {other : ℚ} (h : Literal text value) (ho : Literal text other) :
    other = value := by
  obtain ⟨digits, power, hu, rfl⟩ := unsigned?_of_literal h
  obtain ⟨_, _, hv, rfl⟩ := unsigned?_of_literal ho
  rw [hu] at hv
  cases hv
  rfl

/-- Ten to the 400th is beyond the largest finite magnitude and, inverted, below the least. -/
private theorem two_pow_le_ten_pow : (2 : ℚ) ^ (1200 : Int) ≤ 10 ^ (400 : Int) := by
  rw [show (1200 : Int) = 3 * 400 by norm_num, zpow_mul]
  exact zpow_le_zpow_left₀ (by norm_num) (by norm_num) (by norm_num)

private theorem two_pow_le_of_large {digits : Nat} (hd : digits ≠ 0) {power : Int}
    (h : 400 < power) : (2 : ℚ) ^ (1024 : Int) ≤ digits * 10 ^ power := by
  have hone : (1 : ℚ) ≤ digits := by exact_mod_cast Nat.pos_of_ne_zero hd
  calc (2 : ℚ) ^ (1024 : Int) ≤ 2 ^ (1200 : Int) :=
        zpow_le_zpow_right₀ one_le_two (by norm_num)
    _ ≤ 10 ^ (400 : Int) := two_pow_le_ten_pow
    _ ≤ 10 ^ power := zpow_le_zpow_right₀ (by norm_num) h.le
    _ ≤ digits * 10 ^ power := le_mul_of_one_le_left (by positivity) hone

private theorem two_mul_le_of_small {digits : Nat} {power : Int}
    (h : power + digits.log2 < -400) :
    2 * (digits * 10 ^ power : ℚ) ≤ 2 ^ Number.leastExponent := by
  have hdigits : (digits : ℚ) ≤ 10 ^ (digits.log2 + 1 : Int) := by
    calc (digits : ℚ) ≤ 2 ^ (digits.log2 + 1 : Int) := by
          exact_mod_cast Nat.lt_log2_self.le
      _ ≤ 10 ^ (digits.log2 + 1 : Int) :=
          zpow_le_zpow_left₀ (by omega) (by norm_num) (by norm_num)
  calc 2 * (digits * 10 ^ power : ℚ)
      ≤ 2 * (10 ^ (digits.log2 + 1 : Int) * 10 ^ power) := by gcongr
    _ = 2 * 10 ^ (power + digits.log2 + 1) := by
        rw [← zpow_add₀ (by norm_num)]
        congr 2
        ring
    _ ≤ 2 * 10 ^ (-400 : Int) := by
        gcongr
        · norm_num
        · omega
    _ ≤ 2 ^ (1 : Int) * 2 ^ (-1200 : Int) := by
        rw [zpow_one, zpow_neg, zpow_neg]
        gcongr
        exact two_pow_le_ten_pow
    _ ≤ 2 ^ Number.leastExponent := by
        rw [← zpow_add₀ two_ne_zero]
        exact zpow_le_zpow_right₀ one_le_two (by decide)

theorem ofDigits_roundsTo (digits : Nat) (power : Int) :
    RoundsTo (digits * 10 ^ power) (ofDigits false digits power) := by
  have hfraction : (digits * 10 ^ power : ℚ) =
      (digits * Nat.pow 10 power.toNat : Nat) / (Nat.pow 10 (-power).toNat : Nat) := by
    rw [Number.zpow_eq_div (by norm_num) power]
    simp only [Nat.pow_eq]
    push_cast
    ring
  have hne : Nat.pow 10 (-power).toNat ≠ 0 := (Nat.pow_pos (by decide)).ne'
  unfold ofDigits
  split
  · rename_i hz
    rw [hz, Nat.cast_zero, zero_mul]
    exact Number.roundsTo_zero le_rfl (by rw [mul_zero]; positivity)
  · rename_i hz
    split
    · rename_i hlarge
      rw [hfraction]
      apply Number.roundsTo_infinite hne
      rw [← hfraction]
      exact two_pow_le_of_large hz hlarge
    · split
      · rename_i hsmall
        exact Number.roundsTo_zero (by positivity) (two_mul_le_of_small hsmall)
      · rw [hfraction]
        exact Number.roundsTo_nearest hne

private theorem count_point {digits : List Char} (hd : ∀ c ∈ digits, c.isDigit = true) :
    digits.count '.' = 0 :=
  List.count_eq_zero.mpr fun hc => ne_point_of_digit (hd _ hc) rfl

theorem Literal.count_point_le (h : Literal text value) : text.count '.' ≤ 1 := by
  cases h with
  | whole hw hp =>
    rw [List.count_append, count_point (mem_digits.mp hw).2, hp.count_point]
    exact Nat.zero_le 1
  | pointed hw hf hp =>
    rw [List.count_append, List.count_cons_self, List.count_append, count_point hw,
      count_point (mem_digits.mp hf).2, hp.count_point]

private theorem exists_parts (h : slice ∈ number + pointed) :
    ∃ whole groups tail, slice = whole ++ (groups ++ tail) ∧ (∀ c ∈ whole, c.isDigit = true) ∧
      groups ∈ (Token.Pattern.char '.' * digits)∗ ∧ tail ∈ 1 + Token.Pattern.exponent ∧
      (groups = [] → whole ≠ []) := by
  rcases h with h | h
  · obtain ⟨front, hfront, tail, ht, rfl⟩ := Language.mem_mul.mp h
    obtain ⟨whole, hw, groups, hg, rfl⟩ := Language.mem_mul.mp hfront
    obtain ⟨hne, hd⟩ := mem_digits.mp hw
    exact ⟨whole, groups, tail, List.append_assoc _ _ _, hd, hg, ht, fun _ => hne⟩
  · obtain ⟨front, hfront, tail, ht, rfl⟩ := Language.mem_mul.mp h
    obtain ⟨first, hf, more, hm, rfl⟩ := Language.mem_mul.mp hfront
    have hne : first ≠ [] := by
      obtain ⟨rest, -, rfl⟩ := Token.Pattern.mem_char_mul.mp hf
      exact List.cons_ne_nil _ _
    refine ⟨[], first ++ more, tail, rfl, by simp, ?_, ht, fun hg => ?_⟩
    · rw [← Language.one_add_self_mul_kstar_eq_kstar]
      exact .inr (Language.append_mem_mul hf hm)
    · exact absurd (List.append_eq_nil_iff.mp hg).1 hne

private theorem groups_cases {groups : List Char} (h : groups ∈ (Token.Pattern.char '.' * digits)∗) :
    groups = [] ∨ ∃ fraction more, fraction ∈ digits ∧
      more ∈ (Token.Pattern.char '.' * digits)∗ ∧ groups = '.' :: (fraction ++ more) := by
  rw [← Language.one_add_self_mul_kstar_eq_kstar] at h
  rcases h with rfl | h
  · exact .inl rfl
  · obtain ⟨first, hf, more, hm, rfl⟩ := Language.mem_mul.mp h
    obtain ⟨fraction, hd, rfl⟩ := Token.Pattern.mem_char_mul.mp hf
    exact .inr ⟨fraction, more, hd, hm, rfl⟩

private theorem toLower_of_digit {c : Char} (h : c.isDigit = true ∨ c = '.') : c.toLower = c := by
  rcases h with h | rfl
  · simp only [Char.isDigit, Bool.and_eq_true, decide_eq_true_eq] at h
    rw [Char.toLower, dif_neg]
    intro hu
    exact absurd (UInt32.le_trans hu.1 h.2) (by decide)
  · decide

private theorem read?_eq {c : Char} (h : c.isDigit = true ∨ c = '.') (rest : List Char) :
    read? (c :: rest) =
      (unsigned? (c :: rest)).map fun found => ofDigits false found.1 found.2 := by
  have hminus : c ≠ '-' := by
    rintro rfl
    exact absurd h (by decide)
  have hplus : c ≠ '+' := by
    rintro rfl
    exact absurd h (by decide)
  have hword (first : Char) (others : List Char) (hf : first.isDigit = false ∧ first ≠ '.') :
      (c :: rest).map Char.toLower ≠ first :: others := by
    intro heq
    obtain rfl : c = first := by
      rw [← toLower_of_digit h]
      exact (List.cons.inj heq).1
    simp [hf] at h
  simp only [read?, splitSign_cons hminus hplus]
  cases unsigned? (c :: rest) with
  | some found => rfl
  | none =>
    dsimp only
    rw [if_neg, if_neg]
    · rfl
    · exact hword 'n' _ (by decide)
    · rintro (hi | hi)
      · exact hword 'i' _ (by decide) hi
      · exact hword 'i' _ (by decide) hi

private theorem unsigned?_of_points {fraction more : List Char}
    (hw : ∀ c ∈ whole, c.isDigit = true) (hf : fraction ∈ digits) :
    unsigned? (whole ++ '.' :: (fraction ++ '.' :: more)) = none := by
  obtain ⟨htake, hdrop⟩ := @span_digits ('.' :: (fraction ++ '.' :: more)) whole hw (by simp)
  obtain ⟨hfirst, hrest⟩ := @span_digits ('.' :: more) fraction (mem_digits.mp hf).2 (by simp)
  simp [unsigned?, htake, hdrop, hfirst, hrest, exponent?]

/-- A number with at most one point stands for a fraction and is read as the double that the fraction
rounds to. A number with more points is not read. -/
theorem read?_of_number (h : slice ∈ number + pointed) :
    (∃ value x, Literal slice value ∧ read? slice = some x ∧ RoundsTo value x) ∨
      2 ≤ slice.count '.' ∧ read? slice = none := by
  obtain ⟨whole, groups, tail, hs, hw, hg, ht, hne⟩ := exists_parts h
  obtain ⟨power, hp⟩ := exists_power ht
  have hread : read? slice = (unsigned? slice).map fun found => ofDigits false found.1 found.2 := by
    subst hs
    cases whole with
    | cons digit others => exact read?_eq (.inl (hw digit List.mem_cons_self)) _
    | nil =>
      rcases groups_cases hg with rfl | ⟨fraction, more, -, -, rfl⟩
      · exact absurd rfl (hne rfl)
      · exact read?_eq (.inr rfl) _
  have hrounds {value : ℚ} (hl : Literal slice value) :
      ∃ value x, Literal slice value ∧ read? slice = some x ∧ RoundsTo value x := by
    obtain ⟨digits, power, hu, rfl⟩ := unsigned?_of_literal hl
    exact ⟨_, _, hl, by rw [hread, hu]; rfl, ofDigits_roundsTo digits power⟩
  rcases groups_cases hg with rfl | ⟨fraction, more, hf, hm, rfl⟩
  · subst hs
    exact .inl (hrounds (.whole (mem_digits.mpr ⟨hne rfl, hw⟩) hp))
  · rcases groups_cases hm with rfl | ⟨another, others, -, -, rfl⟩
    · rw [List.append_nil, List.cons_append] at hs
      subst hs
      exact .inl (hrounds (.pointed hw hf hp))
    · simp only [List.cons_append, List.append_assoc] at hs
      right
      rw [hread, hs, unsigned?_of_points hw hf]
      refine ⟨?_, rfl⟩
      simp only [List.count_append, List.count_cons_self]
      omega

end

end VectorFormula.Decimal
