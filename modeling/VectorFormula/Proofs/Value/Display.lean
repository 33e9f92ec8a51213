import VectorFormula.Proofs.Reading.Numerals
/-!
Values as texts. The text of a value with finite elements is a formula for the value, and as the
text that a name is bound to the text of one finite number is that number (`evaluate_text`).
-/
namespace VectorFormula

open Term (IsNumeral)
open Tokens (Spells)

def Number.IsFinite (x : Float) : Prop :=
  ∃ negative significand exponent, view x = .finite negative significand exponent

namespace Value

section

variable {x : Float} {elements : List Float}

private theorem exists_isNumeral (h : Number.IsFinite x) :
    ∃ term : Term, term.IsNumeral x ∧ ∀ rest, Token.EndsNumber rest →
      Spells term.tokens (Tokens.ofText ((Decimal.numeral x).toList ++ rest))
        (Tokens.ofText rest) := by
  obtain ⟨negative, significand, exponent, hview⟩ := h
  obtain ⟨ordinal, ho, rfl⟩ := Number.exists_ofOrdinal hview
  obtain ⟨body, value, hn, hp, hc⟩ := Decimal.exists_plain_numeral negative ho
  rw [hn]
  exact Term.exists_isNumeral hp hc negative

/-- The items of a list after the first one, each with a separator before it, and the end. -/
private def moreText : List Float → List Char
  | [] => [']']
  | x :: rest => ',' :: ' ' :: ((Decimal.numeral x).toList ++ moreText rest)

private theorem endsNumber_moreText (elements : List Float) :
    Token.EndsNumber (moreText elements) := by
  cases elements <;> exact ⟨rfl, rfl⟩

private theorem exists_moreTerms (h : ∀ x ∈ elements, Number.IsFinite x) :
    ∃ terms, List.Forall₂ IsNumeral terms elements ∧
      Spells (Term.moreTokens terms ++ [.operator .vectorEnd])
        (Tokens.ofText (moreText elements)) .done := by
  induction elements with
  | nil => exact ⟨[], .nil, Token.spells_vectorEnd⟩
  | cons x rest ih =>
    obtain ⟨hx, hrest⟩ := List.forall_mem_cons.mp h
    obtain ⟨terms, hterms, hspells⟩ := ih hrest
    obtain ⟨term, hterm, hnumeral⟩ := exists_isNumeral hx
    have hcomma := @Token.spells_operator (moreText (x :: rest)) .comma 1 rfl
    have hblank : Tokens.ofText ((moreText (x :: rest)).drop 1) =
        Tokens.ofText ((Decimal.numeral x).toList ++ moreText rest) :=
      Token.ofText_skipped rfl _
    rw [hblank] at hcomma
    have hitem := Tokens.spells_append.mpr ⟨_, hnumeral _ (endsNumber_moreText rest), hspells⟩
    refine ⟨term :: terms, .cons hterm hterms, ?_⟩
    simpa [Term.moreTokens] using Tokens.spells_append.mpr ⟨_, hcomma, hitem⟩

private theorem toList_intercalate (first : List Char) (rest : List Float) :
    [',', ' '].intercalate (first :: rest.map fun x => (Decimal.numeral x).toList) ++ [']'] =
      first ++ moreText rest := by
  induction rest generalizing first with
  | nil => rw [List.map_nil, List.intercalate_singleton, moreText]
  | cons x rest ih =>
    rw [List.map_cons, List.intercalate_cons_cons, List.append_assoc, ih, moreText]
    simp

private theorem exists_vector (h : ∀ x ∈ elements, Number.IsFinite x) :
    ∃ terms, List.Forall₂ IsNumeral terms elements ∧
      Spells (Term.vector terms).tokens (Tokens.ofText
        ("[" ++ ", ".intercalate (elements.map Decimal.numeral) ++ "]").toList) .done := by
  cases elements with
  | nil =>
    obtain ⟨terms, hterms, hspells⟩ := exists_moreTerms h
    obtain rfl := List.forall₂_nil_right_iff.mp hterms
    exact ⟨[], .nil, Tokens.spells_append.mpr ⟨_, Token.spells_vectorStart _, hspells⟩⟩
  | cons x rest =>
    obtain ⟨hx, hrest⟩ := List.forall_mem_cons.mp h
    obtain ⟨terms, hterms, hspells⟩ := exists_moreTerms hrest
    obtain ⟨term, hterm, hnumeral⟩ := exists_isNumeral hx
    have htext : ("[" ++ ", ".intercalate ((x :: rest).map Decimal.numeral) ++ "]").toList =
        '[' :: ((Decimal.numeral x).toList ++ moreText rest) := by
      rw [← toList_intercalate]
      simp [String.toList_intercalate, Function.comp_def]
    have hitems := Tokens.spells_append.mpr ⟨_, hnumeral _ (endsNumber_moreText rest), hspells⟩
    refine ⟨term :: terms, .cons hterm hterms, ?_⟩
    rw [htext]
    simpa [Term.tokens, Term.listTokens] using
      Tokens.spells_append.mpr ⟨_, Token.spells_vectorStart _, hitems⟩

end

/-- The text of a value with finite elements is a formula without names that has the value. -/
private theorem exists_text_term (value : Value) (h : ∀ x ∈ value.elements, Number.IsFinite x) :
    ∃ term : Term, term.StandsFor .builtin value.text ∧ term.depth < Emission.maxNesting ∧
      term.program.paths = [] ∧ ∀ read, term.evaluate read = .ok value := by
  obtain ⟨elements⟩ := value
  -- A single number is written without brackets.
  by_cases hsingle : ∃ x, elements = [x]
  · obtain ⟨x, rfl⟩ := hsingle
    obtain ⟨term, hterm, hnumeral⟩ := exists_isNumeral (h x (List.mem_singleton_self x))
    have hspells := hnumeral [] ⟨rfl, rfl⟩
    rw [List.append_nil, show Tokens.ofText [] = .done from Tokens.ofText_none rfl] at hspells
    have hdepth : term.depth < Emission.maxNesting := Nat.lt_of_le_of_lt hterm.depth_le (by decide)
    exact ⟨term, ⟨Token.ofText?_eq_some.mpr hspells, hterm.wellGrouped, hterm.over⟩, hdepth,
      hterm.paths, hterm.evaluate⟩
  · obtain ⟨terms, hterms, hspells⟩ := exists_vector h
    have htext : Value.text ⟨elements⟩ =
        "[" ++ ", ".intercalate (elements.map Decimal.numeral) ++ "]" := by
      unfold Value.text
      split
      · rename_i x hx
        exact absurd ⟨x, hx⟩ hsingle
      · rfl
    have hdepth : (Term.vector terms).depth < Emission.maxNesting := by
      refine Nat.lt_of_le_of_lt (Term.listDepth_le.mpr fun term hm => ?_) (by decide : 2 < _)
      obtain ⟨x, hx⟩ := Term.IsNumeral.exists_of_mem hterms hm
      exact Nat.lt_succ_of_le hx.depth_le
    refine ⟨.vector terms, ⟨?_, .vector fun term hm => ?_, .vector fun term hm => ?_⟩, hdepth,
      ?_, ?_⟩
    · rw [htext]
      exact Token.ofText?_eq_some.mpr hspells
    · obtain ⟨x, hx⟩ := Term.IsNumeral.exists_of_mem hterms hm
      exact hx.wellGrouped
    · obtain ⟨x, hx⟩ := Term.IsNumeral.exists_of_mem hterms hm
      exact hx.over
    · rw [Term.program, Program.paths, List.filterMap_append, ← Program.paths,
        Term.IsNumeral.programs_paths hterms]
      rfl
    · intro read
      rw [Term.evaluate, Term.IsNumeral.evaluateAll hterms]
      have hconcat : Value.concat (elements.map Value.scalar) = ⟨elements⟩ := by
        simp [Value.concat, Value.scalar, List.flatMap_map]
      exact congrArg Except.ok hconcat

private theorem not_isBlank_of_digit {c : Char} (h : c.isDigit = true ∨ c = '.') :
    Text.isBlank c = false := by
  rcases h with h | rfl
  · have hrange : 48 ≤ c.toNat ∧ c.toNat ≤ 57 := by
      simpa [Char.isDigit, UInt32.le_iff_toNat_le] using h
    simp only [Text.isBlank, Bool.or_eq_false_iff, Bool.and_eq_false_iff, decide_eq_false_iff_not,
      beq_eq_false_iff_ne]
    omega
  · rfl

private theorem trim_numeral (h : Number.IsFinite x) :
    Text.trim (Decimal.numeral x).toList = (Decimal.numeral x).toList := by
  have hblank : ∀ c ∈ (Decimal.numeral x).toList, Text.isBlank c = false := by
    obtain ⟨negative, significand, exponent, hview⟩ := h
    obtain ⟨ordinal, ho, rfl⟩ := Number.exists_ofOrdinal hview
    obtain ⟨body, value, hn, hp, -⟩ := Decimal.exists_plain_numeral negative ho
    have hbody : ∀ c ∈ body, Text.isBlank c = false := fun c hc =>
      not_isBlank_of_digit (hp.isDigit_or_point hc)
    rw [hn, Decimal.toList_signed]
    split
    · exact List.forall_mem_cons.mpr ⟨rfl, hbody⟩
    · exact hbody
  have hdrop (text : List Char) (ht : ∀ c ∈ text, Text.isBlank c = false) :
      text.dropWhile Text.isBlank = text := by
    cases text with
    | nil => rfl
    | cons c rest => rw [List.dropWhile_cons, ht c List.mem_cons_self]; rfl
  rw [Text.trim, hdrop _ hblank, hdrop _ fun c hc => hblank c (List.mem_reverse.mp hc),
    List.reverse_reverse]

/-- The text of a value with finite elements is parsed, and evaluates to a value with the same
elements, zeros with their signs, whatever the layers and the options are. A name that is bound to
the text of a single finite number is read as that number. -/
theorem evaluate_text (value : Value) (h : ∀ x ∈ value.elements, Number.IsFinite x) :
    (∃ expression, Expression.parse value.text = .ok expression ∧
      ∀ (id : Nat) (layers : List Context) (options : Options),
        ((Formula.mk id expression).evaluate layers options).result = .ok value) ∧
    (value.size = 1 → ∀ (layers : List Context) (path : Path),
      (Scope.ofLayers layers).resolve path = some (.text value.text) →
      ∀ (formula : Formula) (options : Options), formula.program = [.load path] →
        (formula.evaluate layers options).result = .ok value) := by
  constructor
  · obtain ⟨term, hs, hd, hp, he⟩ := exists_text_term value h
    refine ⟨_, Expression.parseWith_of_standsFor hs hd, fun id layers options => ?_⟩
    rw [Formula.result_evaluate_term rfl (by simp [Formula.program, hp]), he]
  · intro hsize layers path hr formula options hp
    obtain ⟨x, hx⟩ := List.length_eq_one_iff.mp hsize
    obtain rfl : value = .scalar x := by rw [Value.scalar, ← hx]
    have hfinite : Number.IsFinite x := h x (List.mem_singleton_self x)
    have hread : Decimal.read? (Text.trim (Decimal.numeral x).toList) = some x := by
      obtain ⟨negative, significand, exponent, hview⟩ := hfinite
      rw [trim_numeral ⟨negative, significand, exponent, hview⟩, Decimal.read?_numeral hview]
    have hpaths : ∀ found ∈ formula.program.paths, ∃ binding,
        (Scope.ofLayers layers).resolve found = some binding ∧
          ∀ other, binding ≠ .formula other := by
      intro found hm
      obtain rfl : found = path := by simpa [hp] using hm
      exact ⟨_, hr, by simp⟩
    rw [@Formula.result_evaluate_term formula (.named path) layers hp hpaths]
    simp only [Term.evaluate, Term.results, Evaluation.reading, Evaluation.load, hr,
      Evaluation.readText]
    rw [show (Value.scalar x).text = Decimal.numeral x from rfl, hread]
    rfl

/-- A zero keeps its sign, in a list and as the text of a name. -/
theorem evaluate_text_zero :
    (∃ expression, Expression.parse "[-0, 1.5]" = .ok expression ∧
      ((Formula.mk 0 expression).evaluate [] {}).result = .ok ⟨[-0.0, 1.5]⟩) ∧
    ((Formula.mk 0 ⟨"x", [.load ["x"]]⟩).evaluate [⟨[("x", .text "-0")]⟩] {}).result =
      .ok ⟨[-0.0]⟩ := by
  have hzero : Number.IsFinite (-0.0) := ⟨true, 0, -1074, by decide +kernel⟩
  have hhalf : Number.IsFinite 1.5 := ⟨false, 6755399441055744, -52, by decide +kernel⟩
  have hlist : Value.text ⟨[-0.0, 1.5]⟩ = "[-0, 1.5]" := by decide +kernel
  have hsingle : Value.text ⟨[-0.0]⟩ = "-0" := by decide +kernel
  constructor
  · have hfinite : ∀ x ∈ [-0.0, 1.5], Number.IsFinite x :=
      List.forall_mem_cons.mpr ⟨hzero, List.forall_mem_singleton.mpr hhalf⟩
    obtain ⟨expression, hp, he⟩ := (evaluate_text ⟨[-0.0, 1.5]⟩ hfinite).1
    exact ⟨expression, hlist ▸ hp, he 0 [] {}⟩
  · apply (evaluate_text ⟨[-0.0]⟩ (by simpa using hzero)).2 rfl _ ["x"] _ _ _ rfl
    rw [hsingle]
    rfl

end Value

end VectorFormula
