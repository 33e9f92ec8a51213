import VectorFormula.Expression
import VectorFormula.Proofs.Emission
import VectorFormula.Proofs.Reading.Completeness
import VectorFormula.Proofs.Reading.Levels
import VectorFormula.Proofs.Tokenizing
/-!
What a source compiles to: the program of the one well-grouped term that it spells
(`compile_postorder`).
-/
namespace VectorFormula

open Emission (maxNesting)

namespace Term

/-- A well-grouped term over a registry that is spelled by a source. -/
structure StandsFor (registry : Registry) (source : String) (term : Term) : Prop where
  tokens : Token.ofText? source.toList = some term.tokens
  grouped : term.WellGrouped
  resolved : term.Over registry

variable {registry : Registry} {source : String} {term : Term}

private theorem StandsFor.reading (h : term.StandsFor registry source) {levels : Nat}
    (hd : term.depth < levels) :
    Reading registry levels none (Tokens.ofText source.toList) term .done := by
  have hspells := Token.ofText?_eq_some.mp h.tokens
  exact ⟨⟨hspells, h.grouped, h.resolved, hd, nofun⟩, fun _ _ => rfl, trivial⟩

private theorem Reading.standsFor {levels : Nat}
    (h : Reading registry levels none (Tokens.ofText source.toList) term .done) :
    term.StandsFor registry source :=
  ⟨Token.ofText?_eq_some.mpr h.spells, h.grouped, h.resolved⟩

theorem parse_eq_ok {tokens : Tokens} :
    parse registry tokens = .ok term ↔ Reading registry maxNesting none tokens term .done := by
  constructor
  · intro h
    obtain ⟨⟨⟨found, after⟩, fewer⟩, hr, h⟩ := bind_eq_ok.mp h
    cases after with
    | done => cases h; exact reader_sound registry maxNesting _ _ _ hr
    | bad error => cases h
    | next lexeme rest => cases h
  · intro h
    obtain ⟨fewer, hr⟩ := reader_complete registry maxNesting _ _ _ _ rfl h
    simp only [parse, hr]
    rfl

private theorem parse_of_deep {tokens : Tokens} {levels : Nat}
    (h : Reading registry levels none tokens term .done) (hd : maxNesting ≤ term.depth) :
    ∃ remaining, parse registry tokens = .error (.nestingTooDeep maxNesting remaining) := by
  -- On enough levels the term is read, so the reader of `maxNesting` levels cannot read another.
  obtain ⟨fewer, hr⟩ := reader_complete registry levels _ _ _ _ rfl h
  have hl : maxNesting ≤ levels := Nat.le_of_lt (Nat.lt_of_le_of_lt hd h.shallow)
  rcases reader_cut registry hl none tokens with hs | ⟨remaining, hs⟩
  · rw [hr] at hs
    have hshallow : term.depth < maxNesting := (reader_sound registry maxNesting _ _ _ hs).shallow
    exact absurd hshallow (Nat.not_lt.mpr hd)
  · exact ⟨remaining, by simp only [parse, hs]; rfl⟩

theorem StandsFor.not_blank (h : term.StandsFor registry source) :
    Text.isAllBlank source.toList = false := by
  apply Bool.eq_false_iff.mpr
  intro hb
  obtain ⟨token, more, ht, -⟩ := tokens_head h.resolved
  have hnil : term.tokens = [] := Token.eq_nil_of_isAllBlank hb h.tokens
  exact List.cons_ne_nil _ _ (ht.symm.trans hnil)

theorem StandsFor.unique {other : Term} (h : term.StandsFor registry source)
    (ho : other.StandsFor registry source) : other = term := by
  -- One reader with levels for both terms reads each of them.
  have hr := h.reading (Nat.lt_succ_of_le (Nat.le_max_left term.depth other.depth))
  have hro := ho.reading (Nat.lt_succ_of_le (Nat.le_max_right term.depth other.depth))
  obtain ⟨fewer, he⟩ := reader_complete registry _ _ _ _ _ rfl hr
  obtain ⟨less, heo⟩ := reader_complete registry _ _ _ _ _ rfl hro
  rw [he] at heo
  cases heo
  rfl

end Term

namespace Expression

variable {registry : Registry} {source : String} {program : Program}

theorem compile_eq (h : Text.isAllBlank source.toList = false) :
    compile registry source =
      (Term.parse registry (Tokens.ofText source.toList)).map Term.program := by
  rw [compile, h, Term.program_eq]
  rfl

/-- A source that is not blank compiles if it spells a term that is not too deep. -/
theorem compile_eq_ok (hb : Text.isAllBlank source.toList = false) :
    compile registry source = .ok program ↔
      ∃ term : Term, term.StandsFor registry source ∧ term.depth < maxNesting ∧
        term.program = program := by
  rw [compile_eq hb]
  constructor
  · intro h
    match hp : Term.parse registry (Tokens.ofText source.toList), h with
    | .ok term, h =>
      have hr := Term.parse_eq_ok.mp hp
      exact ⟨term, hr.standsFor, hr.shallow, Except.ok.inj h⟩
  · rintro ⟨term, hs, hd, rfl⟩
    rw [Term.parse_eq_ok.mpr (hs.reading hd)]
    rfl

theorem compile_of_deep {term : Term} (h : term.StandsFor registry source)
    (hd : maxNesting ≤ term.depth) :
    ∃ remaining, compile registry source = .error (.nestingTooDeep maxNesting remaining) := by
  obtain ⟨remaining, he⟩ := Term.parse_of_deep (h.reading (Nat.lt_succ_self _)) hd
  exact ⟨remaining, by rw [compile_eq h.not_blank, he]; rfl⟩

theorem exists_term_of_compile (h : compile registry source = .ok program) :
    Text.isAllBlank source.toList = true ∧ program = blank ∨
      ∃ term : Term, term.StandsFor registry source ∧ term.depth < maxNesting ∧
        term.program = program := by
  cases hb : Text.isAllBlank source.toList with
  | true =>
    rw [compile, hb] at h
    cases h
    exact .inl ⟨rfl, rfl⟩
  | false => exact .inr ((compile_eq_ok hb).mp h)

theorem parseWith_eq_ok {expression : Expression} :
    parseWith registry source = .ok expression ↔
      expression.text = source ∧ compile registry source = .ok expression.program := by
  obtain ⟨text, program⟩ := expression
  cases hc : compile registry source with
  | error error => simp [parseWith, hc, Except.map]
  | ok found => simp [parseWith, hc, Except.map, eq_comm (a := source)]

theorem parseWith_of_standsFor {term : Term} (h : term.StandsFor registry source)
    (hd : term.depth < maxNesting) : parseWith registry source = .ok ⟨source, term.program⟩ :=
  parseWith_eq_ok.mpr ⟨rfl, (compile_eq_ok h.not_blank).mpr ⟨term, h, hd, rfl⟩⟩

/-- The program of a compiled expression is that of a blank source, or that of a term that a source
spells. -/
theorem Compiled.exists_term {expression : Expression} (h : expression.Compiled) :
    expression.program = blank ∨ ∃ (registry : Registry) (source : String) (term : Term),
      term.StandsFor registry source ∧ term.program = expression.program := by
  cases h with
  | @parsed registry source _ h =>
    obtain ⟨-, hc⟩ := parseWith_eq_ok.mp h
    rcases exists_term_of_compile hc with ⟨-, hb⟩ | ⟨term, hs, -, hp⟩
    · exact .inl hb
    · exact .inr ⟨registry, source, term, hs, hp⟩
  | nothing => exact .inl rfl

/-- A well-grouped term that a source spells decides what the source compiles to: the postorder of
the term, unless it nests too deeply. A source that compiles and is not blank spells such a term, and
no other. -/
theorem compile_postorder (registry : Registry) (source : String) :
    (∀ term : Term, term.StandsFor registry source →
      (term.depth < maxNesting → compile registry source = .ok term.program) ∧
      (maxNesting ≤ term.depth → ∃ remaining,
        compile registry source = .error (.nestingTooDeep maxNesting remaining))) ∧
    (∀ program, compile registry source = .ok program → Text.isAllBlank source.toList = false →
      ∃ term : Term, term.StandsFor registry source ∧ term.depth < maxNesting ∧
        term.program = program ∧ ∀ other : Term, other.StandsFor registry source → other = term) := by
  constructor
  · intro term hs
    constructor
    · intro hd
      exact (compile_eq_ok hs.not_blank).mpr ⟨term, hs, hd, rfl⟩
    · exact compile_of_deep hs
  · intro program hp hb
    obtain ⟨term, hs, hd, he⟩ := (compile_eq_ok hb).mp hp
    exact ⟨term, hs, hd, he, fun other ho => hs.unique ho⟩

/-- A sign takes the power behind it as its operand, and indexing takes the whole. -/
theorem compile_signed_power :
    compile .builtin "-a ** b[c]" = .ok [.load ["a"], .load ["b"],
      .call "**" (.binary Function.pow) 2, .call "-" (.unary Function.unaryMinus) 1, .load ["c"],
      .index 1] ∧
    ∃ term : Term, term.StandsFor .builtin "-a ** b[c]" ∧
      ∀ other : Term, other.StandsFor .builtin "-a ** b[c]" → other = term := by
  have hs : Term.StandsFor .builtin "-a ** b[c]" (.index
      (.unary .unaryMinus (.unary Function.unaryMinus)
        (.binary .power (.binary Function.pow) (.named ["a"]) (.named ["b"]))) [.named ["c"]]) := by
    refine ⟨Token.ofText?_eq_some.mpr (by cbv), ?_, ?_⟩
    · refine .index (.unary (.binary (.named _) (.named _) ?_ ?_) ?_) ?_ ?_ <;>
        simp [Term.leftEdge, Term.rightEdge, Operator.captures, Operator.priority, Term.WellGrouped.named]
    · refine .index (.unary rfl (by cbv) (.binary rfl (by cbv) (.named _) (.named _))) ?_
      simp [Term.Over.named]
  have hp := ((compile_postorder .builtin "-a ** b[c]").1 _ hs).1 (by decide)
  obtain ⟨term, ht, -, -, hu⟩ := (compile_postorder .builtin "-a ** b[c]").2 _ hp (by decide)
  exact ⟨hp, term, ht, hu⟩

end Expression

end VectorFormula
