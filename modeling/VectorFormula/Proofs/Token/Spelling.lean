import Mathlib
import VectorFormula.Proofs.Decimal.Numeral
import VectorFormula.Token.Stream
/-!
Texts that are put together from pieces. A piece in front of a text is a token of its own if the
text does not go on with it.
-/
namespace VectorFormula.Token

open Decimal (Plain)
open Number (IsClosest ofOrdinal)
open Pattern (digits mem_digits dotted mem_dotted)
open Tokens (Spells)

section

variable {text body rest : List Char} {value : ℚ} {ordinal : Nat}

/-- A number does not go on with a text that starts with no digit, point and digit, or exponent. -/
structure EndsNumber (rest : List Char) : Prop where
  dotted : dottedLength Char.isDigit rest = 0
  exponent : exponentLength rest = 0

private theorem mem_dotted_of_digits {whole : List Char} (hw : ∀ c ∈ whole, c.isDigit = true)
    (hr : rest ∈ dotted Char.isDigit) : whole ++ rest ∈ dotted Char.isDigit := by
  induction whole with
  | nil => exact hr
  | cons c more ih =>
    obtain ⟨hc, hm⟩ := List.forall_mem_cons.mp hw
    exact mem_dotted.mpr (.inr (.inl ⟨c, more ++ rest, hc, ih hm, rfl⟩))

private theorem mem_dotted_of_plain (h : Plain body value) : body ∈ dotted Char.isDigit := by
  have hnil : [] ∈ dotted Char.isDigit := mem_dotted.mpr (.inl rfl)
  cases h with
  | whole hw => simpa using mem_dotted_of_digits (mem_digits.mp hw).2 hnil
  | @pointed whole fraction hw hf =>
    apply mem_dotted_of_digits (mem_digits.mp hw).2
    obtain ⟨hne, hd⟩ := mem_digits.mp hf
    obtain ⟨first, more, rfl⟩ := List.exists_cons_of_ne_nil hne
    obtain ⟨hfirst, hmore⟩ := List.forall_mem_cons.mp hd
    have hm : more ∈ dotted Char.isDigit := by simpa using mem_dotted_of_digits hmore hnil
    exact mem_dotted.mpr (.inr (.inr ⟨first, more, hfirst, hm, rfl⟩))

private theorem mantissaLength_eq (text : List Char) :
    mantissaLength text = dottedLength Char.isDigit text := by
  rw [mantissaLength.eq_def, dottedLength.eq_def]

theorem numberLength_append (h : Plain body value) (hr : EndsNumber rest) :
    numberLength (body ++ rest) = body.length := by
  have hdotted := Pattern.dottedLength_append (by decide) (mem_dotted_of_plain h) rest
  rw [hr.dotted, Nat.zero_add] at hdotted
  have hne : body.length ≠ 0 := by
    obtain ⟨first, more, -, rfl⟩ := h.exists_cons
    exact Nat.succ_ne_zero _
  rw [numberLength, mantissaLength_eq, hdotted, if_neg hne, List.drop_left, hr.exponent,
    Nat.add_zero]

private theorem isSkipped_of_classify {c : Char} {token : Token} {length : Nat}
    (h : classify c (c :: rest) = (.ok token, length)) : isSkipped c = false := by
  by_contra hs
  have hc : c = ' ' ∨ c = '\t' ∨ c = '\n' ∨ c = '\r' := by
    simp only [isSkipped, Bool.not_eq_false, Bool.or_eq_true, beq_iff_eq, or_assoc] at hs
    exact hs
  have herror : (classify c (c :: rest)).1 = .error (.character c) := by
    rcases hc with rfl | rfl | rfl | rfl <;> rfl
  rw [h] at herror
  cases herror

private theorem spells_classify {c : Char} {token : Token} {length : Nat}
    (h : classify c (c :: rest) = (.ok token, length)) :
    Spells [token] (Tokens.ofText (c :: rest)) (Tokens.ofText ((c :: rest).drop length)) := by
  have hp : piece? (c :: rest) =
      some ⟨.ok token, (c :: rest).take length, c :: rest, (c :: rest).drop length⟩ := by
    rw [piece?, List.dropWhile_cons, isSkipped_of_classify h]
    simp only [h, Bool.false_eq_true, if_false]
  rw [Tokens.ofText_ok hp rfl]
  exact ⟨rfl, rfl⟩

theorem ofText_skipped {c : Char} (h : isSkipped c = true) (rest : List Char) :
    Tokens.ofText (c :: rest) = Tokens.ofText rest := by
  apply Tokens.ofText_congr
  rw [piece?, piece?, List.dropWhile_cons, h]
  rfl

theorem spells_number (h : Plain body value) (hc : IsClosest value ordinal)
    (hr : EndsNumber rest) :
    Spells [.number (ofOrdinal false ordinal)] (Tokens.ofText (body ++ rest))
      (Tokens.ofText rest) := by
  have hlength := numberLength_append h hr
  have hread : Decimal.read? body = some (ofOrdinal false ordinal) := by
    simpa using h.read?_signed hc false
  obtain ⟨first, more, hf, rfl⟩ := h.exists_cons
  have hclassify : classify first (first :: (more ++ rest)) =
      (.ok (.number (ofOrdinal false ordinal)), (first :: more).length) := by
    have htake : (first :: (more ++ rest)).take (first :: more).length = first :: more :=
      List.take_left
    rw [List.cons_append] at hlength
    simp only [classify, hlength, htake, hread]
    rfl
  have hspells := spells_classify hclassify
  rwa [show (first :: (more ++ rest)).drop (first :: more).length = rest from List.drop_left]
    at hspells

theorem spells_operator {operator : Operator} {length : Nat}
    (h : operator? text = some (operator, length)) :
    Spells [.operator operator] (Tokens.ofText text) (Tokens.ofText (text.drop length)) := by
  have hs : text.take length ∈ Kind.operator.pattern :=
    ⟨operator, Pattern.mem_spellings_of_operator? h⟩
  have hzero {kind : Kind} (hk : kind ≠ .operator) : kind.length text = 0 :=
    Kind.length_eq_zero hs (List.take_prefix _ _) hk
  have hn : numberLength text = 0 := @hzero .number nofun
  have hp : pathLength text = 0 := @hzero .path nofun
  have hq : quotationLength text = 0 := @hzero .quotation nofun
  cases text with
  | nil => cases h
  | cons c rest => exact spells_classify (by simp [classify, hn, hp, hq, h])

theorem spells_vectorStart (rest : List Char) :
    Spells [.operator .vectorStart] (Tokens.ofText ('[' :: rest)) (Tokens.ofText rest) :=
  @spells_operator ('[' :: rest) .vectorStart 1 rfl

theorem spells_vectorEnd : Spells [.operator .vectorEnd] (Tokens.ofText [']']) .done := by
  have hend := @spells_operator [']'] .vectorEnd 1 rfl
  rwa [show Tokens.ofText ([']'].drop 1) = .done from Tokens.ofText_none rfl] at hend

/-- A plain numeral with a sign is one token or two: the sign is no part of the number. -/
theorem spells_signed (h : Plain body value) (hc : IsClosest value ordinal) (hr : EndsNumber rest)
    (negative : Bool) :
    Spells ((if negative then [.operator .minus] else []) ++ [.number (ofOrdinal false ordinal)])
      (Tokens.ofText ((Decimal.signed negative body).toList ++ rest)) (Tokens.ofText rest) := by
  have hnumber := spells_number h hc hr
  cases negative with
  | false => simpa using hnumber
  | true =>
    have hminus : Spells [.operator .minus] (Tokens.ofText ('-' :: (body ++ rest)))
        (Tokens.ofText (body ++ rest)) := @spells_operator ('-' :: (body ++ rest)) .minus 1 rfl
    simpa using Tokens.spells_append.mpr ⟨_, hminus, hnumber⟩

theorem spells_name {name : List Char} (h : name ∈ Pattern.path)
    (hr : dottedLength isNamePart rest = 0) :
    Spells [.identifier ((splitDots name).map String.ofList)] (Tokens.ofText (name ++ rest))
      (Tokens.ofText rest) := by
  have hn : numberLength (name ++ rest) = 0 :=
    @Kind.length_eq_zero .path _ _ .number h (List.prefix_append _ _) nofun
  obtain ⟨c, more, hc, hm, rfl⟩ := Pattern.mem_path.mp h
  have hp : pathLength (c :: (more ++ rest)) = (c :: more).length := by
    rw [pathLength, if_pos hc, Pattern.dottedLength_append (by decide) hm, hr, Nat.zero_add]
    rfl
  have htake : (c :: (more ++ rest)).take (c :: more).length = c :: more := List.take_left
  have hdrop : (c :: (more ++ rest)).drop (c :: more).length = rest := List.drop_left
  rw [List.cons_append] at hn
  have hclassify : classify c (c :: (more ++ rest)) =
      (.ok (.identifier ((splitDots (c :: more)).map String.ofList)), (c :: more).length) := by
    simp only [classify, hn, hp, htake]
    rfl
  have hspells := spells_classify hclassify
  rwa [hdrop] at hspells

end

end VectorFormula.Token
