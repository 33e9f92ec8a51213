import VectorFormula.Proofs.Compilation
import VectorFormula.Proofs.Machine.Refinement
import VectorFormula.Proofs.References.Missing
import VectorFormula.Proofs.Token.Spelling
/-!
Numerals in formulas. A numeral with a sign is a term of its own, a number or a minus and a number,
and the term has the double that the numeral stands for as its value (`exists_isNumeral`).
-/
namespace VectorFormula

open Number (IsClosest ofOrdinal)
open Tokens (Spells)

namespace Term

/-- Whether a term is a numeral of a double: a number, or a minus before one. -/
inductive IsNumeral : Term → Float → Prop
  | plus (x : Float) : IsNumeral (.number x) x
  | minus (x : Float) :
    IsNumeral (.unary .unaryMinus (.unary Function.unaryMinus) (.number x)) (-x)

section

variable {term : Term} {x : Float}

theorem IsNumeral.wellGrouped (h : term.IsNumeral x) : term.WellGrouped := by
  cases h with
  | plus => exact .number _
  | minus => exact .unary (.number _) (by simp [leftEdge])

theorem IsNumeral.over (h : term.IsNumeral x) : term.Over .builtin := by
  cases h with
  | plus => exact .number _
  | minus => exact .unary rfl (by cbv) (.number _)

theorem IsNumeral.depth_le (h : term.IsNumeral x) : term.depth ≤ 1 := by
  cases h <;> simp [depth]

theorem IsNumeral.leftEdge (h : term.IsNumeral x) : term.leftEdge = [] := by
  cases h <;> rfl

theorem IsNumeral.paths (h : term.IsNumeral x) : term.program.paths = [] := by
  cases h <;> rfl

theorem IsNumeral.evaluate (h : term.IsNumeral x) (read : Path → Except RuntimeError Value) :
    term.evaluate read = .ok (.scalar x) := by
  cases h <;> rfl

end

section

variable {terms : List Term} {elements : List Float}

theorem IsNumeral.exists_of_mem (h : List.Forall₂ IsNumeral terms elements) {term : Term}
    (hm : term ∈ terms) : ∃ x, term.IsNumeral x := by
  induction h with
  | nil => cases hm
  | cons hx _ ih =>
    rcases List.mem_cons.mp hm with rfl | hm
    · exact ⟨_, hx⟩
    · exact ih hm

theorem IsNumeral.evaluateAll (h : List.Forall₂ IsNumeral terms elements)
    (read : Path → Except RuntimeError Value) :
    Term.evaluateAll read terms = .ok (elements.map Value.scalar) := by
  induction h with
  | nil => rfl
  | cons hx _ ih =>
    rw [Term.evaluateAll, hx.evaluate, ih]
    rfl

theorem IsNumeral.programs_paths (h : List.Forall₂ IsNumeral terms elements) :
    Program.paths (programs terms) = [] := by
  induction h with
  | nil => rfl
  | cons hx _ ih =>
    rw [programs, Program.paths, List.filterMap_append, ← Program.paths, ← Program.paths, hx.paths,
      ih, List.append_nil]

end

theorem exists_isNumeral {body : List Char} {value : ℚ} {ordinal : Nat}
    (h : Decimal.Plain body value) (hc : IsClosest value ordinal) (negative : Bool) :
    ∃ term : Term, term.IsNumeral (ofOrdinal negative ordinal) ∧
      ∀ rest, Token.EndsNumber rest →
        Spells term.tokens (Tokens.ofText ((Decimal.signed negative body).toList ++ rest))
          (Tokens.ofText rest) := by
  have hspells {rest : List Char} (hr : Token.EndsNumber rest) :=
    Token.spells_signed h hc hr negative
  cases negative with
  | false => exact ⟨_, .plus _, fun rest hr => hspells hr⟩
  | true =>
    have hterm := IsNumeral.minus (ofOrdinal false ordinal)
    rw [Number.neg_ofOrdinal] at hterm
    exact ⟨_, hterm, fun rest hr => hspells hr⟩

end Term

/-- A formula without names, or with names that lead to no formulas, has the value of its term. -/
theorem Formula.result_evaluate_term {formula : Formula} {term : Term} {layers : List Context}
    (hp : formula.program = term.program)
    (hr : ∀ path ∈ formula.program.paths, ∃ binding,
      (Scope.ofLayers layers).resolve path = some binding ∧ ∀ other, binding ≠ .formula other)
    (options : Options) :
    (formula.evaluate layers options).result = term.evaluate (Term.results
      (Evaluation.reading (.ofLayers layers) options options.maxDepth [formula.id])) := by
  rw [evaluate_eq fun _ => Scope.unknowns_eq_nil hr]
  simp only [Evaluation.within, hp]
  exact (Term.program_pushes _ term).run

end VectorFormula
