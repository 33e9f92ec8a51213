import VectorFormula.Proofs.Compilation
import VectorFormula.Proofs.Grammar.Calls
import VectorFormula.Proofs.Grammar.Derivation
import VectorFormula.Proofs.Grammar.Regrouping
/-!
The sources that compile are those that the grammar without priorities derives (`compile_accepts`).
Priorities decide how a source groups, but never whether it is accepted.
-/
namespace VectorFormula

open Grammar

namespace Term

variable {registry : Registry} {source : String} {tokens : List Token} {calls : List Call}

theorem exists_standsFor (hr : registry.HasOperators)
    (ht : Token.ofText? source.toList = some tokens) (hs : Sentence tokens calls)
    (hc : ∀ call ∈ calls, registry.Resolves call) :
    ∃ term : Term, term.StandsFor registry source := by
  obtain ⟨term, ho, rfl⟩ := exists_over hr hs hc
  obtain ⟨other, hg⟩ := regroup ho
  exact ⟨other, by rw [ht, hg.tokens], hg.grouped, hg.resolved⟩

end Term

namespace Expression

/-- With functions for all operators, a source that is not blank and does not nest too deeply
compiles if and only if its tokens are a sentence of which all calls are resolved. -/
theorem compile_iff_sentence {registry : Registry} (hr : registry.HasOperators) {source : String}
    (hb : Text.isAllBlank source.toList = false)
    (hd : ∀ limit remaining,
      compile registry source ≠ .error (.nestingTooDeep limit remaining)) :
    (∃ program, compile registry source = .ok program) ↔
      ∃ tokens calls, Token.ofText? source.toList = some tokens ∧ Sentence tokens calls ∧
        ∀ call ∈ calls, registry.Resolves call := by
  constructor
  · rintro ⟨program, hp⟩
    obtain ⟨term, hs, -, -⟩ := (compile_eq_ok hb).mp hp
    obtain ⟨calls, hc, hr⟩ := Term.exists_sentence hs.resolved
    exact ⟨term.tokens, calls, hs.tokens, hc, hr⟩
  · rintro ⟨tokens, calls, ht, hs, hc⟩
    obtain ⟨term, hterm⟩ := Term.exists_standsFor hr ht hs hc
    rcases Nat.lt_or_ge term.depth Emission.maxNesting with hlt | hge
    · exact ⟨term.program, (compile_eq_ok hb).mpr ⟨term, hterm, hlt, rfl⟩⟩
    · obtain ⟨remaining, he⟩ := compile_of_deep hterm hge
      exact absurd he (hd _ _)

/-- With the functions of the catalog, a source that is not blank and does not nest too deeply
compiles if and only if all of it reads as tokens, the tokens are a sentence of the grammar, and the
catalog resolves every call in it, whatever the derivation. -/
theorem compile_accepts (source : String) (hb : Text.isAllBlank source.toList = false)
    (hd : ∀ limit remaining,
      compile .builtin source ≠ .error (.nestingTooDeep limit remaining)) :
    (∃ program, compile .builtin source = .ok program) ↔
      ∃ tokens, Token.ofText? source.toList = some tokens ∧
        (∃ calls, Sentence tokens calls) ∧
        ∀ calls, Sentence tokens calls → ∀ call ∈ calls, Registry.builtin.Resolves call := by
  rw [compile_iff_sentence Registry.builtin_hasOperators hb hd]
  constructor
  · rintro ⟨tokens, calls, ht, hs, hc⟩
    refine ⟨tokens, ht, ⟨calls, hs⟩, ?_⟩
    intro others ho
    rw [ho.calls_unique hs]
    exact hc
  · rintro ⟨tokens, ht, ⟨calls, hs⟩, hc⟩
    exact ⟨tokens, calls, ht, hs, hc calls hs⟩

/-- A call of two operands is accepted: its tokens are a sentence, and the call is resolved. -/
theorem compile_accepts_sum :
    (∃ program, compile .builtin "sum(a, b)" = .ok program) ∧
    ∃ tokens, Token.ofText? "sum(a, b)".toList = some tokens ∧ (∃ calls, Sentence tokens calls) ∧
      ∀ calls, Sentence tokens calls → ∀ call ∈ calls, Registry.builtin.Resolves call := by
  have hs : Term.StandsFor .builtin "sum(a, b)"
      (.apply ["sum"] (.variadic Function.sum) [.named ["a"], .named ["b"]]) := by
    refine ⟨Token.ofText?_eq_some.mpr (by cbv), .apply ?_, .apply (by cbv) ?_⟩ <;>
      simp [Term.WellGrouped.named, Term.Over.named]
  have hb : Text.isAllBlank "sum(a, b)".toList = false := by decide
  have hc := (compile_eq_ok hb).mpr ⟨_, hs, by decide, rfl⟩
  have hd (limit : Nat) (remaining : String) :
      compile .builtin "sum(a, b)" ≠ .error (.nestingTooDeep limit remaining) := by
    intro he
    rw [hc] at he
    cases he
  exact ⟨⟨_, hc⟩, (compile_accepts "sum(a, b)" hb hd).mp ⟨_, hc⟩⟩

end Expression

end VectorFormula
