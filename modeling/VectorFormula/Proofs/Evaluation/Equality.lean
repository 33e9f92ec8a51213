import VectorFormula.Proofs.Evaluation.Relevance
import VectorFormula.Proofs.Registry.Determinacy
/-!
Equality of programs and evaluation. Formulas of equal programs have one result, in all layers that
bind neither of them (`evaluate_of_beq`).
-/
namespace VectorFormula

namespace Formula

variable {formula other : Formula} {layers : List Context}

/-- Formulas of one program have one result where no layer binds them: that they are being evaluated
is never noticed. -/
theorem result_evaluate_congr (hp : other.program = formula.program)
    (h : ∀ bound ∈ (Scope.ofLayers layers).formulas, bound.id ≠ formula.id ∧ bound.id ≠ other.id)
    (options : Options) :
    (other.evaluate layers options).result = (formula.evaluate layers options).result := by
  have hids (bound : Formula) (hb : bound ∈ (Scope.ofLayers layers).formulas) :
      bound.id ∈ [other.id] ↔ bound.id ∈ [formula.id] := by
    obtain ⟨hf, ho⟩ := h bound hb
    simp [hf, ho]
  have hunknowns :
      (Scope.ofLayers layers).unknowns other = (Scope.ofLayers layers).unknowns formula := by
    rw [Scope.unknowns, Scope.unknowns, hp,
      Scope.missing_congr (fun _ _ => ⟨rfl, fun next _ => .refl _ next⟩) hids]
  have hwithin : (Evaluation.within (.ofLayers layers) options options.maxDepth [] other).result =
      (Evaluation.within (.ofLayers layers) options options.maxDepth [] formula).result :=
    Evaluation.within_same_program _ hp hids fun _ _ _ _ => .inl rfl
  rw [result_evaluate_eq, result_evaluate_eq, hunknowns, hwithin]

/-- Equality of programs is sound. Where no function is registered under the symbol of an operator, as
it is for the functions that are built in, formulas whose sources compile to programs that are equal
have one result, whatever the options, in all layers that bind neither of them. -/
theorem evaluate_of_beq :
    Registry.builtin.SparesSymbols ∧
    ∀ registry : Registry, registry.SparesSymbols →
      ∀ (source another : String) (formula other : Formula),
        Expression.parseWith registry source = .ok formula.expression →
        Expression.parseWith registry another = .ok other.expression →
        (formula.program == other.program) = true →
        ∀ layers : List Context,
          (∀ layer ∈ layers, ∀ bound ∈ Binding.formulasOf layer.entries,
            bound.id ≠ formula.id ∧ bound.id ≠ other.id) →
          ∀ options,
            (other.evaluate layers options).result = (formula.evaluate layers options).result := by
  refine ⟨Registry.sparesSymbols_builtin, ?_⟩
  intro registry hr source another formula other hs ha he layers hl options
  have hp : formula.program = other.program :=
    Expression.compile_eq_of_beq hr (Expression.parseWith_eq_ok.mp hs).2
      (Expression.parseWith_eq_ok.mp ha).2 he
  refine result_evaluate_congr hp.symm ?_ options
  intro bound hb
  obtain ⟨layer, hlayer, hb⟩ := Scope.mem_formulas_ofLayers.mp hb
  exact hl layer hlayer bound hb

/-- Two spellings of the sum of a number and a name, which is bound to a formula that reads another
number. -/
theorem evaluate_of_beq_spellings :
    let program : Program := [.push (.scalar 2.0), .load ["x"], .call "+" (.binary Function.plus) 2]
    let formula : Formula := ⟨0, "2+x", program⟩
    let other : Formula := ⟨1, "2.0 + \x7bx\x7d", program⟩
    let layers : List Context :=
      [⟨[("x", .formula ⟨2, "y", [.load ["y"]]⟩), ("y", .number 8.0)]⟩]
    Expression.parse "2+x" = .ok formula.expression ∧
      Expression.parse "2.0 + \x7bx\x7d" = .ok other.expression ∧
      (formula.program == other.program) = true ∧
      (formula.evaluate layers {}).result = .ok ⟨[10.0]⟩ ∧
      (other.evaluate layers {}).result = (formula.evaluate layers {}).result := by
  intro program formula other layers
  let term : Term := .binary .plus (.binary Function.plus) (.number 2.0) (.named ["x"])
  have hgrouped : term.WellGrouped := .binary (.number _) (.named _) nofun nofun
  have hover : term.Over .builtin := .binary rfl (by cbv) (.number _) (.named _)
  have hparse {source : String}
      (ht : Tokens.Spells term.tokens (Tokens.ofText source.toList) .done) :
      Expression.parse source = .ok ⟨source, program⟩ :=
    Expression.parseWith_of_standsFor ⟨Token.ofText?_eq_some.mpr ht, hgrouped, hover⟩ (by decide)
  have hf : Expression.parse "2+x" = .ok formula.expression := by
    have hpiece : Token.piece? "2+x".toList =
        some ⟨.ok (.number 2.0), "2".toList, "2+x".toList, "+x".toList⟩ := rfl
    have hrest : Tokens.Spells [.operator .plus, .identifier ["x"]] (Tokens.ofText "+x".toList)
        .done := by cbv
    exact hparse (by rw [Tokens.ofText_ok hpiece rfl]; exact ⟨rfl, hrest⟩)
  have ho : Expression.parse "2.0 + \x7bx\x7d" = .ok other.expression := by
    have hpiece : Token.piece? "2.0 + \x7bx\x7d".toList = some
        ⟨.ok (.number 2.0), "2.0".toList, "2.0 + \x7bx\x7d".toList, " + \x7bx\x7d".toList⟩ := rfl
    have hrest : Tokens.Spells [.operator .plus, .identifier ["x"]]
        (Tokens.ofText " + \x7bx\x7d".toList) .done := by cbv
    exact hparse (by rw [Tokens.ofText_ok hpiece rfl]; exact ⟨rfl, hrest⟩)
  have he : (formula.program == other.program) = true := by decide
  refine ⟨hf, ho, he, rfl, ?_⟩
  refine evaluate_of_beq.2 .builtin evaluate_of_beq.1 _ _ formula other hf ho he layers ?_ {}
  have hformulas : Binding.formulasOf [("x", .formula ⟨2, "y", [.load ["y"]]⟩), ("y", .number 8.0)] =
      [⟨2, "y", [.load ["y"]]⟩] := rfl
  simp [layers, hformulas, formula, other]

end Formula

end VectorFormula
