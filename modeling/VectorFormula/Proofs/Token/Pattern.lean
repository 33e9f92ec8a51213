import Mathlib
import VectorFormula.Token.Scan
/-!
The patterns of tokens as languages. The lengths that a scan finds are those of the longest matches
at the front of a text.
-/
namespace VectorFormula.Token

open scoped Computability

namespace Pattern

def one (isMember : Char → Bool) : Language Char :=
  {text | ∃ c, isMember c = true ∧ text = [c]}

def char (c : Char) : Language Char :=
  one (· == c)

/-- What a pattern matches once or more, one match after another. -/
def repeated (pattern : Language Char) : Language Char :=
  pattern * pattern∗

def digits : Language Char :=
  repeated (one Char.isDigit)

def exponent : Language Char :=
  one (fun c => c == 'e' || c == 'E') * (1 + one fun c => c == '+' || c == '-') * digits

/-- Digits with any number of points between them, and an exponent. -/
def number : Language Char :=
  digits * (char '.' * digits)∗ * (1 + exponent)

def pointed : Language Char :=
  char '.' * digits * (char '.' * digits)∗ * (1 + exponent)

def path : Language Char :=
  one isNameStart * (one isNamePart)∗ * (char '.' * repeated (one isNamePart))∗

def quotation : Language Char :=
  char '\x7b' * (one (· != '\x7d'))∗ * char '\x7d'

def spellings : List (List Char × Operator) := [
  (['*', '*'], .power), (['^'], .power), (['=', '='], .equal), (['>', '='], .greaterOrEqual),
  (['<', '='], .lessOrEqual), (['|', '|'], .or), (['&', '&'], .and), (['.', '.'], .range),
  (['*'], .multiply), (['/'], .divide), (['%'], .modulo), (['+'], .plus), (['-'], .minus),
  (['!'], .negate), (['~'], .complement), (['>'], .greater), (['<'], .less),
  (['?'], .ternaryTrue), ([':'], .ternaryFalse), (['('], .groupStart), ([')'], .groupEnd),
  (['['], .vectorStart), ([']'], .vectorEnd), ([','], .comma)]

def operator : Language Char :=
  {text | ∃ operator, (text, operator) ∈ spellings}

end Pattern

def pattern : Language Char :=
  Pattern.number + Pattern.pointed + Pattern.path + Pattern.quotation + Pattern.operator

/-- Whether a slice is the longest that a pattern matches at the front of a text. -/
structure IsLongest (pattern : Language Char) (text slice : List Char) : Prop where
  mem : slice ∈ pattern
  isPrefix : slice <+: text
  le : ∀ other ∈ pattern, other <+: text → other.length ≤ slice.length

/-- Whether a function finds the length of the longest match at the front of a text, or zero. -/
structure Measures (length : List Char → Nat) (pattern : Language Char) : Prop where
  le {text slice : List Char} : slice ∈ pattern → slice <+: text → slice.length ≤ length text
  mem {text : List Char} : length text ≠ 0 → text.take (length text) ∈ pattern

namespace Pattern

variable {isMember : Char → Bool} {text : List Char} {language : Language Char}

theorem mem_one_mul :
    text ∈ one isMember * language ↔
      ∃ c rest, isMember c = true ∧ rest ∈ language ∧ text = c :: rest := by
  rw [Language.mem_mul]
  constructor
  · rintro ⟨_, ⟨c, hc, rfl⟩, rest, hr, rfl⟩
    exact ⟨c, rest, hc, hr, rfl⟩
  · rintro ⟨c, rest, hc, hr, rfl⟩
    exact ⟨[c], ⟨c, hc, rfl⟩, rest, hr, rfl⟩

theorem mem_char_mul {c : Char} :
    text ∈ char c * language ↔ ∃ rest ∈ language, text = c :: rest := by
  simp [char, mem_one_mul]

theorem mem_char {c : Char} : text ∈ char c ↔ text = [c] := by
  constructor
  · rintro ⟨d, hd, rfl⟩
    rw [eq_of_beq hd]
  · rintro rfl
    exact ⟨c, BEq.rfl, rfl⟩

theorem mem_kstar_one : text ∈ (one isMember)∗ ↔ ∀ c ∈ text, isMember c = true := by
  induction text with
  | nil => simp [Language.nil_mem_kstar]
  | cons c rest ih =>
    rw [← Language.one_add_self_mul_kstar_eq_kstar, Language.mem_add, mem_one_mul, List.forall_mem_cons,
      ← ih]
    simp [Language.mem_one]

theorem mem_repeated_one :
    text ∈ repeated (one isMember) ↔ text ≠ [] ∧ ∀ c ∈ text, isMember c = true := by
  cases text with
  | nil => simp [repeated, mem_one_mul]
  | cons c rest => simp [repeated, mem_one_mul, mem_kstar_one]

/-- Members of a class, with points between them. -/
def dotted (isMember : Char → Bool) : Language Char :=
  (one isMember)∗ * (char '.' * repeated (one isMember))∗

private theorem kstar_mul_kstar_mul (a b : Language Char) : a∗ * (b * a∗)∗ = (a + b)∗ := by
  apply le_antisymm
  · have ha : a∗ ≤ (a + b)∗ := kstar_mono le_sup_left
    have hb : b ≤ (a + b)∗ := le_trans le_sup_right le_kstar
    calc a∗ * (b * a∗)∗ ≤ (a + b)∗ * ((a + b)∗ * (a + b)∗)∗ := by gcongr
      _ = (a + b)∗ := by rw [kstar_mul_kstar, kstar_idem, kstar_mul_kstar]
  · have hone : 1 ≤ a∗ * (b * a∗)∗ := by
      calc (1 : Language Char) = 1 * 1 := (mul_one 1).symm
        _ ≤ a∗ * (b * a∗)∗ := by gcongr <;> exact one_le_kstar
    refine kstar_le_of_mul_le_right hone ?_
    rw [add_mul]
    apply sup_le
    · rw [← mul_assoc]
      gcongr
      exact mul_kstar_le_kstar
    · calc b * (a∗ * (b * a∗)∗) = b * a∗ * (b * a∗)∗ := (mul_assoc _ _ _).symm
        _ ≤ 1 * (b * a∗)∗ := by
          rw [one_mul]
          exact mul_kstar_le_kstar
        _ ≤ a∗ * (b * a∗)∗ := by
          gcongr
          exact one_le_kstar

theorem dotted_eq : dotted isMember = (one isMember + char '.' * one isMember)∗ := by
  rw [dotted, repeated, ← mul_assoc, kstar_mul_kstar_mul]

theorem mem_dotted :
    text ∈ dotted isMember ↔ text = [] ∨
      (∃ c rest, isMember c = true ∧ rest ∈ dotted isMember ∧ text = c :: rest) ∨
      ∃ c rest, isMember c = true ∧ rest ∈ dotted isMember ∧ text = '.' :: c :: rest := by
  have h : text ∈ dotted isMember ↔ text ∈ 1 + (one isMember * dotted isMember +
      char '.' * (one isMember * dotted isMember)) := by
    rw [dotted_eq, ← mul_assoc, ← add_mul, Language.one_add_self_mul_kstar_eq_kstar]
  rw [h]
  simp only [Language.mem_add, Language.mem_one, mem_one_mul, mem_char_mul]
  grind

theorem number_add_pointed :
    number + pointed =
      (one Char.isDigit + char '.' * one Char.isDigit) * dotted Char.isDigit * (1 + exponent) := by
  simp only [number, pointed, digits, dotted, repeated, add_mul, mul_assoc]

theorem take_dottedLength : text.take (dottedLength isMember text) ∈ dotted isMember := by
  fun_induction dottedLength isMember text with
  | case1 c rest hc ih => exact mem_dotted.mpr (.inr (.inr ⟨c, _, hc, ih, rfl⟩))
  | case2 => exact mem_dotted.mpr (.inl rfl)
  | case3 c rest _ hc ih => exact mem_dotted.mpr (.inr (.inl ⟨c, _, hc, ih, rfl⟩))
  | case4 => exact mem_dotted.mpr (.inl rfl)
  | case5 => exact mem_dotted.mpr (.inl rfl)

private theorem dottedLength_cons (hp : isMember '.' = false) {c : Char} (hc : isMember c = true)
    (rest : List Char) :
    dottedLength isMember (c :: rest) = dottedLength isMember rest + 1 := by
  have hne : c ≠ '.' := by
    rintro rfl
    simp [hp] at hc
  rw [dottedLength.eq_def]
  split <;> simp_all

private theorem dottedLength_point {c : Char} (hc : isMember c = true) (rest : List Char) :
    dottedLength isMember ('.' :: c :: rest) = dottedLength isMember rest + 2 := by
  rw [dottedLength, if_pos hc]

theorem dottedLength_append (hp : isMember '.' = false) {slice : List Char}
    (hs : slice ∈ dotted isMember) (rest : List Char) :
    dottedLength isMember (slice ++ rest) = dottedLength isMember rest + slice.length := by
  rcases mem_dotted.mp hs with rfl | ⟨c, more, hc, hm, rfl⟩ | ⟨c, more, hc, hm, rfl⟩
  · rfl
  · rw [List.cons_append, dottedLength_cons hp hc, dottedLength_append hp hm rest]
    rfl
  · rw [List.cons_append, List.cons_append, dottedLength_point hc, dottedLength_append hp hm rest]
    rfl
termination_by slice.length

theorem length_le_dottedLength (hp : isMember '.' = false) {text slice : List Char}
    (hs : slice ∈ dotted isMember) (hpre : slice <+: text) :
    slice.length ≤ dottedLength isMember text := by
  obtain ⟨rest, rfl⟩ := hpre
  rw [dottedLength_append hp hs]
  exact Nat.le_add_left _ _

def mantissa : Language Char :=
  (one Char.isDigit + char '.' * one Char.isDigit) * dotted Char.isDigit

theorem mem_mantissa :
    text ∈ mantissa ↔
      (∃ c rest, c.isDigit = true ∧ rest ∈ dotted Char.isDigit ∧ text = c :: rest) ∨
      ∃ c rest, c.isDigit = true ∧ rest ∈ dotted Char.isDigit ∧ text = '.' :: c :: rest := by
  rw [mantissa, add_mul, mul_assoc, Language.mem_add, mem_one_mul, mem_char_mul]
  simp only [mem_one_mul]
  grind

theorem measures_mantissa : Measures mantissaLength mantissa where
  le {text slice} hs hpre := by
    obtain ⟨rest, rfl⟩ := hpre
    rcases mem_mantissa.mp hs with ⟨c, more, hc, hm, rfl⟩ | ⟨c, more, hc, hm, rfl⟩
    · have hne : c ≠ '.' := by
        rintro rfl
        exact absurd hc (by decide)
      have := length_le_dottedLength (by decide) hm (List.prefix_append more rest)
      rw [List.cons_append, mantissaLength.eq_def]
      split <;> simp_all
    · have := length_le_dottedLength (by decide) hm (List.prefix_append more rest)
      rw [List.cons_append, List.cons_append, mantissaLength, if_pos hc]
      exact Nat.succ_le_succ (Nat.succ_le_succ this)
  mem {text} hne := by
    apply mem_mantissa.mpr
    fun_cases mantissaLength text with
    | case1 c rest hc => exact .inr ⟨c, _, hc, take_dottedLength, rfl⟩
    | case3 c rest _ hc => exact .inl ⟨c, _, hc, take_dottedLength, rfl⟩
    | _ => simp_all [mantissaLength]

theorem mem_exponent :
    text ∈ exponent ↔ ∃ mark count, (mark = 'e' ∨ mark = 'E') ∧ count ∈ digits ∧
      (text = mark :: count ∨ ∃ sign, (sign = '+' ∨ sign = '-') ∧ text = mark :: sign :: count) := by
  rw [exponent, mul_assoc, mem_one_mul]
  simp only [add_mul, one_mul, Language.mem_add, mem_one_mul, Bool.or_eq_true, beq_iff_eq]
  constructor
  · rintro ⟨mark, _, hm, hc | ⟨sign, count, hs, hc, rfl⟩, rfl⟩
    · exact ⟨mark, _, hm, hc, .inl rfl⟩
    · exact ⟨mark, count, hm, hc, .inr ⟨sign, hs, rfl⟩⟩
  · rintro ⟨mark, count, hm, hc, rfl | ⟨sign, hs, rfl⟩⟩
    · exact ⟨mark, count, hm, .inl hc, rfl⟩
    · exact ⟨mark, _, hm, .inr ⟨sign, count, hs, hc, rfl⟩, rfl⟩

theorem mem_digits : text ∈ digits ↔ text ≠ [] ∧ ∀ c ∈ text, c.isDigit = true :=
  mem_repeated_one

theorem splitSign_of_digits {count : List Char} (hc : count ∈ digits) (rest : List Char) :
    Decimal.splitSign (count ++ rest) = (false, count ++ rest) := by
  obtain ⟨hne, hd⟩ := mem_digits.mp hc
  obtain ⟨digit, others, rfl⟩ := List.exists_cons_of_ne_nil hne
  have hdigit : digit.isDigit = true := hd digit List.mem_cons_self
  apply Decimal.splitSign_cons <;>
  · rintro rfl
    exact absurd hdigit (by decide)

private theorem length_le_takeWhile {count : List Char} (hc : count ∈ digits) (rest : List Char) :
    count.length ≤ ((count ++ rest).takeWhile Char.isDigit).length := by
  rw [List.takeWhile_append_of_pos (mem_digits.mp hc).2, List.length_append]
  exact Nat.le_add_right _ _

theorem measures_exponent : Measures exponentLength exponent where
  le {text slice} hs hpre := by
    obtain ⟨rest, rfl⟩ := hpre
    obtain ⟨mark, count, hmark, hc, hs⟩ := mem_exponent.mp hs
    have hmark : (mark == 'e' || mark == 'E') = true := by simpa using hmark
    have hlength := length_le_takeWhile hc rest
    have hpos : 0 < count.length := List.length_pos_iff.mpr (mem_digits.mp hc).1
    rcases hs with rfl | ⟨sign, hsign, rfl⟩
    · simp only [List.cons_append, exponentLength, if_pos hmark, splitSign_of_digits hc]
      rw [if_neg (by omega), List.length_cons]
      omega
    · have hsplit : (Decimal.splitSign (sign :: (count ++ rest))).2 = count ++ rest := by
        rcases hsign with rfl | rfl <;> rfl
      simp only [List.cons_append, exponentLength, if_pos hmark, hsplit]
      rw [if_neg (by omega), List.length_cons, List.length_cons, List.length_cons]
      omega
  mem {text} hne := by
    cases text with
    | nil => exact absurd rfl hne
    | cons mark rest =>
      simp only [exponentLength] at hne ⊢
      split at hne <;> rename_i hm
      · rw [if_pos hm]
        generalize hcount : (Decimal.splitSign rest).2.takeWhile Char.isDigit = count at hne ⊢
        split at hne <;> rename_i hc
        · exact absurd rfl hne
        · have htake : (Decimal.splitSign rest).2.take count.length = count :=
            (List.prefix_iff_eq_take.mp (hcount ▸ List.takeWhile_prefix _)).symm
          have hdigits : count ∈ digits := by
            refine mem_digits.mpr ⟨fun h => hc (by rw [h]; rfl), fun c h => ?_⟩
            exact List.mem_takeWhile_imp (hcount ▸ h)
          rw [if_neg hc]
          apply mem_exponent.mpr
          refine ⟨mark, count, by simpa using hm, hdigits, ?_⟩
          rcases Decimal.splitSign_cases rest with h | ⟨sign, hsign, h⟩
          · left
            rw [h] at htake ⊢
            rw [Nat.sub_self, Nat.zero_add, Nat.add_comm, List.take_succ_cons, htake]
          · right
            refine ⟨sign, hsign, ?_⟩
            generalize (Decimal.splitSign rest).2 = others at *
            subst h
            rw [List.length_cons, Nat.add_sub_cancel_left, Nat.add_comm, List.take_succ_cons,
              List.take_succ_cons, htake]
      · exact absurd rfl hne

theorem mem_of_mem_dotted {text : List Char} (h : text ∈ dotted isMember) {c : Char} (hc : c ∈ text) :
    isMember c = true ∨ c = '.' := by
  rcases mem_dotted.mp h with rfl | ⟨d, rest, hd, hr, rfl⟩ | ⟨d, rest, hd, hr, rfl⟩
  · cases hc
  · rcases List.mem_cons.mp hc with rfl | hc
    · exact .inl hd
    · exact mem_of_mem_dotted hr hc
  · rcases List.mem_cons.mp hc with rfl | hc
    · exact .inr rfl
    · rcases List.mem_cons.mp hc with rfl | hc
      · exact .inl hd
      · exact mem_of_mem_dotted hr hc
termination_by text.length

theorem mem_of_mem_mantissa (h : text ∈ mantissa) {c : Char} (hc : c ∈ text) :
    c.isDigit = true ∨ c = '.' := by
  apply mem_of_mem_dotted _ hc
  rcases mem_mantissa.mp h with h | h
  · exact mem_dotted.mpr (.inr (.inl h))
  · exact mem_dotted.mpr (.inr (.inr h))

theorem measures_number : Measures numberLength (number + pointed) where
  le {text slice} hs hpre := by
    rw [number_add_pointed, ← mantissa] at hs
    obtain ⟨digits, hd, tail, ht, rfl⟩ := Language.mem_mul.mp hs
    have hle := measures_mantissa.le hd ((List.prefix_append digits tail).trans hpre)
    have hpos : 0 < digits.length := by
      rcases mem_mantissa.mp hd with ⟨c, rest, -, -, rfl⟩ | ⟨c, rest, -, -, rfl⟩ <;> simp
    rw [numberLength, if_neg (by omega), List.length_append]
    rcases ht with rfl | ht
    · simp only [List.length_nil]
      omega
    · obtain ⟨mark, count, hmark, -, htail⟩ := mem_exponent.mp ht
      -- The mark of the exponent is no part of a longer mantissa.
      have heq : digits.length = mantissaLength text := by
        by_contra hne
        have hin : digits ++ [mark] <+: text.take (mantissaLength text) := by
          rw [List.prefix_take_iff, List.length_append]
          refine ⟨List.IsPrefix.trans ?_ hpre, by simp; omega⟩
          rw [List.prefix_append_right_inj]
          rcases htail with rfl | ⟨sign, -, rfl⟩ <;> simp
        have hm := mem_of_mem_mantissa (measures_mantissa.mem (by omega))
          (hin.subset (List.mem_append_right _ List.mem_cons_self))
        rcases hmark with rfl | rfl <;> exact absurd hm (by decide)
      obtain ⟨rest, rfl⟩ := hpre
      have htake : tail <+: (digits ++ tail ++ rest).drop digits.length := by simp
      have := measures_exponent.le ht htake
      rw [← heq]
      omega
  mem {text} hne := by
    rw [number_add_pointed, ← mantissa]
    simp only [numberLength] at hne ⊢
    split at hne <;> rename_i hm
    · exact absurd rfl hne
    · rw [if_neg hm, List.take_add]
      refine Language.append_mem_mul (measures_mantissa.mem hm) ?_
      by_cases he : exponentLength (text.drop (mantissaLength text)) = 0
      · rw [he]
        exact .inl rfl
      · exact .inr (measures_exponent.mem he)

theorem mem_path :
    text ∈ path ↔ ∃ c rest, isNameStart c = true ∧ rest ∈ dotted isNamePart ∧ text = c :: rest := by
  rw [path, mul_assoc, mem_one_mul, dotted]

theorem measures_path : Measures pathLength path where
  le {text slice} hs hpre := by
    obtain ⟨c, more, hc, hm, rfl⟩ := mem_path.mp hs
    obtain ⟨rest, rfl⟩ := hpre
    have := length_le_dottedLength (by decide) hm (List.prefix_append more rest)
    rw [List.cons_append, pathLength, if_pos hc]
    exact Nat.succ_le_succ this
  mem {text} hne := by
    cases text with
    | nil => exact absurd rfl hne
    | cons c rest =>
      simp only [pathLength] at hne ⊢
      split at hne <;> rename_i hc
      · rw [if_pos hc]
        exact mem_path.mpr ⟨c, _, hc, take_dottedLength, rfl⟩
      · exact absurd rfl hne

theorem mem_quotation :
    text ∈ quotation ↔ ∃ name, (∀ c ∈ name, c ≠ '\x7d') ∧ text = '\x7b' :: (name ++ ['\x7d']) := by
  rw [quotation, mul_assoc, mem_char_mul]
  simp only [Language.mem_mul, mem_kstar_one, mem_char, bne_iff_ne]
  grind

theorem measures_quotation : Measures quotationLength quotation where
  le {text slice} hs hpre := by
    obtain ⟨name, hn, rfl⟩ := mem_quotation.mp hs
    obtain ⟨rest, rfl⟩ := hpre
    have hname : (name ++ '\x7d' :: rest).takeWhile (· ≠ '\x7d') = name := by
      rw [List.takeWhile_append_of_pos (by simpa using hn)]
      simp
    rw [List.cons_append, List.append_assoc, List.cons_append, List.nil_append, quotationLength, hname,
      if_pos (by simp)]
    simp
  mem {text} hne := by
    unfold quotationLength at hne ⊢
    split at hne
    · rename_i rest
      have hsplit : rest.takeWhile (· ≠ '\x7d') ++ rest.dropWhile (· ≠ '\x7d') = rest :=
        List.takeWhile_append_dropWhile
      have hname : ∀ c ∈ rest.takeWhile (· ≠ '\x7d'), c ≠ '\x7d' := fun c hc => by
        simpa using List.mem_takeWhile_imp hc
      have hclose := List.head?_dropWhile_not (· ≠ '\x7d') rest
      dsimp only at hne ⊢
      generalize rest.takeWhile (· ≠ '\x7d') = name at *
      split at hne <;> rename_i hl
      · rw [if_pos hl]
        cases hd : rest.dropWhile (· ≠ '\x7d') with
        | nil =>
          rw [hd, List.append_nil] at hsplit
          exact absurd hl (by rw [hsplit]; exact Nat.lt_irrefl _)
        | cons close more =>
          rw [hd] at hsplit hclose
          obtain rfl : close = '\x7d' := by simpa using hclose
          refine mem_quotation.mpr ⟨name, hname, ?_⟩
          rw [List.take_succ_cons, ← hsplit, List.take_length_add_append, List.take_succ_cons,
            List.take_zero]
      · exact absurd rfl hne
    · exact absurd rfl hne

theorem mem_spellings_of_operator? {found : Operator} {length : Nat}
    (h : operator? text = some (found, length)) : (text.take length, found) ∈ spellings := by
  unfold operator? at h
  split at h <;> cases h
  all_goals
    simp only [List.take_succ_cons, List.take_zero]
    decide

theorem length_le_of_operator? {slice : List Char} (hs : slice ∈ operator) (hpre : slice <+: text) :
    ∃ found length, operator? text = some (found, length) ∧ slice.length ≤ length := by
  have hfound : ∀ entry ∈ spellings, ∀ rest, ∃ found length,
      operator? (entry.1 ++ rest) = some (found, length) ∧ entry.1.length ≤ length := by
    simp only [spellings, List.forall_mem_cons, List.not_mem_nil, false_implies, implies_true,
      and_true, List.cons_append, List.nil_append]
    and_intros
    -- Only where a longer spelling may be there does it matter what follows.
    all_goals
      intro rest
      first
        | exact ⟨_, _, rfl, by decide⟩
        | unfold operator?
          split <;> first
            | exact ⟨_, _, rfl, by decide⟩
            | (exfalso; solve_by_elim [rfl])
  obtain ⟨rest, rfl⟩ := hpre
  obtain ⟨spelled, hs⟩ := hs
  exact hfound _ hs rest

def operatorLength (text : List Char) : Nat :=
  ((operator? text).map Prod.snd).getD 0

theorem measures_operator : Measures operatorLength operator where
  le {text slice} hs hpre := by
    obtain ⟨found, length, hf, hl⟩ := length_le_of_operator? hs hpre
    rw [operatorLength, hf]
    exact hl
  mem {text} hne := by
    rw [operatorLength] at hne ⊢
    cases hf : operator? text with
    | none =>
      rw [hf] at hne
      exact absurd rfl hne
    | some found => exact ⟨_, mem_spellings_of_operator? hf⟩

end Pattern

/-- The kinds of tokens that differ in how they start. -/
inductive Kind where
  | number | path | quotation | operator

namespace Kind

def pattern : Kind → Language Char
  | number => Pattern.number + Pattern.pointed
  | path => Pattern.path
  | quotation => Pattern.quotation
  | operator => Pattern.operator

def length : Kind → List Char → Nat
  | number => numberLength
  | path => pathLength
  | quotation => quotationLength
  | operator => Pattern.operatorLength

theorem measures : (kind : Kind) → Measures kind.length kind.pattern
  | number => Pattern.measures_number
  | path => Pattern.measures_path
  | quotation => Pattern.measures_quotation
  | operator => Pattern.measures_operator

theorem mem_pattern {slice : List Char} :
    slice ∈ Token.pattern ↔ ∃ kind : Kind, slice ∈ kind.pattern := by
  constructor
  · rintro ((((h | h) | h) | h) | h)
    · exact ⟨number, .inl h⟩
    · exact ⟨number, .inr h⟩
    · exact ⟨path, h⟩
    · exact ⟨quotation, h⟩
    · exact ⟨operator, h⟩
  · rintro ⟨number | path | quotation | operator, h⟩
    · exact .inl (.inl (.inl h))
    · exact .inl (.inl (.inr h))
    · exact .inl (.inr h)
    · exact .inr h

/-- The kind of token that a text may start with. -/
def ofStart : List Char → Kind
  | '.' :: c :: _ => if c.isDigit then number else operator
  | c :: _ =>
    if c.isDigit then number
    else if isNameStart c then path
    else if c = '\x7b' then quotation
    else operator
  | [] => operator

variable {kind : Kind} {text slice : List Char}

private theorem ofStart_cons {c : Char} (h : c ≠ '.') (rest : List Char) :
    ofStart (c :: rest) =
      if c.isDigit then number
      else if isNameStart c then path
      else if c = '\x7b' then quotation
      else operator := by
  unfold ofStart
  split <;> simp_all

private theorem not_digit_of_isNameStart {c : Char} (h : isNameStart c = true) :
    c.isDigit = false := by
  simp only [isNameStart, Char.isAlpha, Char.isUpper, Char.isLower, Bool.or_eq_true,
    Bool.and_eq_true, decide_eq_true_eq, beq_iff_eq, UInt32.le_iff_toNat_le] at h
  rcases h with h | rfl
  · simp only [Char.isDigit, Bool.and_eq_false_iff, decide_eq_false_iff_not, UInt32.le_iff_toNat_le]
    simp at h ⊢
    omega
  · decide

/-- No two kinds of tokens match at the front of one text. -/
theorem ofStart_eq (hs : slice ∈ kind.pattern) (hpre : slice <+: text) :
    ofStart text = kind := by
  obtain ⟨rest, rfl⟩ := hpre
  cases kind with
  | number =>
    rw [pattern, Pattern.number_add_pointed, ← Pattern.mantissa] at hs
    obtain ⟨front, hf, tail, -, rfl⟩ := Language.mem_mul.mp hs
    rcases Pattern.mem_mantissa.mp hf with ⟨c, more, hc, -, rfl⟩ | ⟨c, more, hc, -, rfl⟩
    · have hne : c ≠ '.' := by
        rintro rfl
        exact absurd hc (by decide)
      rw [List.cons_append, List.cons_append, ofStart_cons hne, if_pos hc]
    · exact if_pos hc
  | path =>
    obtain ⟨c, more, hc, -, rfl⟩ := Pattern.mem_path.mp hs
    have hne : c ≠ '.' := by
      rintro rfl
      exact absurd hc (by decide)
    rw [List.cons_append, ofStart_cons hne, not_digit_of_isNameStart hc, if_neg Bool.false_ne_true,
      if_pos hc]
  | quotation =>
    obtain ⟨name, -, rfl⟩ := Pattern.mem_quotation.mp hs
    rfl
  | operator =>
    obtain ⟨found, hs⟩ := hs
    have hall : ∀ entry ∈ Pattern.spellings, ∀ rest, ofStart (entry.1 ++ rest) = operator := by
      simp only [Pattern.spellings, List.forall_mem_cons, List.not_mem_nil, false_implies,
        implies_true, and_true, List.cons_append, List.nil_append]
      and_intros
      all_goals
        intro rest
        rfl
    exact hall _ hs rest

theorem length_eq_zero {other : Kind} (hs : slice ∈ kind.pattern) (hpre : slice <+: text)
    (hne : other ≠ kind) : other.length text = 0 := by
  by_contra hlength
  have hother := ofStart_eq (other.measures.mem hlength) (List.take_prefix _ _)
  exact hne (hother.symm.trans (ofStart_eq hs hpre))

end Kind

end VectorFormula.Token
