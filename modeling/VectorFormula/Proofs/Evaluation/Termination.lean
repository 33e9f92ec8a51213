import VectorFormula.Proofs.Evaluation.Steps
import VectorFormula.Proofs.References.Missing
/-!
Evaluation comes to an end, however formulas refer to each other: one number of steps is enough
for all limits on the nesting (`evaluate_terminates`).
-/
namespace VectorFormula.Formula

open Evaluation (Moment ReturnsWithin)
open Scope (Search)

variable {formula : Formula} {layers : List Context}

theorem exists_run_unknowns (formula : Formula) (layers : List Context) :
    ∃ last, Search.Run (.ofLayers layers) (Search.start formula) last ∧ last.todo = [] ∧
      ∀ name, name ∈ formula.unknowns layers ↔ name ∈ last.found := by
  obtain ⟨last, hrun, ht, hfound⟩ :=
    Scope.exists_run_missing (.ofLayers layers) [formula.id] formula.program.paths []
  refine ⟨last, hrun, ht, fun name => ?_⟩
  simp [hfound, unknowns, Scope.unknowns, Scope.mem_sortedNames]

/-- An evaluation comes to its result within a number of steps that is the same for all options, the
limit on the nesting among them. On its way no formula is evaluated inside itself, and no more of them
are being evaluated than the limit allows. Every run of a formula in it, whether it ends with a value or
with an error, comes back with the chain of formulas that it began with. A strict evaluation may be
refused before it begins, for names that a search finds; a search follows no more dotted names than
there are in the formula and in those of the scope, each counted once, and it ends. -/
theorem evaluate_terminates (formula : Formula) (layers : List Context) :
    let scope := Scope.ofLayers layers
    (∃ bound, ∀ options : Options,
      (options.strict = true → formula.unknowns layers = []) → ∃ count ≤ bound,
        (Evaluation.step scope options)^[count] ⟨[], .run formula, []⟩ =
          ⟨[], .returned (formula.evaluate layers options).result, []⟩) ∧
    (∀ options : Options, options.strict = true → formula.unknowns layers ≠ [] →
      (formula.evaluate layers options).result =
        .error (.unresolvedIdentifiers (formula.unknowns layers))) ∧
    (∀ (options : Options) (count : Nat),
      let moment := (Evaluation.step scope options)^[count] ⟨[], .run formula, []⟩
      moment.active.Nodup ∧ moment.active.length ≤ options.maxDepth + 1) ∧
    (∀ (active : List Nat) (called : Formula), ∃ bound, ∀ options callers, ∃ count ≤ bound,
      Leads (Evaluation.step scope options) (Moment.Inside callers.length) count
        ⟨active, .run called, callers⟩
        ⟨active, .returned (Evaluation.within scope options (options.maxDepth - active.length) active
          called).result, callers⟩) ∧
    (∀ searches, (Search.start formula :: searches).IsChain (Search.Step scope) →
      searches.length ≤ formula.program.paths.length +
        (scope.formulas.map fun other => other.program.paths.length).sum) ∧
    ∃ last, Search.Run scope (Search.start formula) last ∧ last.todo = [] ∧
      ∀ name, name ∈ formula.unknowns layers ↔ name ∈ last.found := by
  intro scope
  refine ⟨?_, ?_, ?_, Evaluation.run_returns scope, ?_, exists_run_unknowns formula layers⟩
  · obtain ⟨bound, hreturns⟩ := Evaluation.run_returns scope [] formula
    refine ⟨bound, fun options hs => ?_⟩
    obtain ⟨count, hc, hl⟩ := hreturns options []
    have hresult : (formula.evaluate layers options).result =
        (Evaluation.within scope options options.maxDepth [] formula).result := by
      rw [evaluate_eq hs]
    exact ⟨count, hc, hresult ▸ hl.reaches⟩
  · intro options hs hne
    rw [result_evaluate_eq]
    exact if_pos ⟨hs, hne⟩
  · intro options count
    have hstart := Evaluation.guarded_start options formula
    exact ⟨(hstart.iterate count).nodup, (hstart.iterate count).length⟩
  · intro searches hs
    refine Nat.le_trans (Search.length_le_remaining hs) (Nat.add_le_add_left ?_ _)
    exact List.sum_le_sum fun other _ => by split <;> omega

/-- Two formulas that refer to each other, and a limit on the nesting that no evaluation comes near. -/
theorem evaluate_terminates_cyclic :
    let layers : List Context := [⟨[("x", .formula ⟨1, "[y]", [.load ["y"], .vector 1]⟩),
      ("y", .formula ⟨2, "[x]", [.load ["x"], .vector 1]⟩)]⟩]
    let formula : Formula := ⟨0, "[x]", [.load ["x"], .vector 1]⟩
    ∃ count, (Evaluation.step (.ofLayers layers) { maxDepth := 1000000000 })^[count]
      ⟨[], .run formula, []⟩ = ⟨[], .returned (.error (.cyclicReference "x")), []⟩ := by
  intro layers formula
  obtain ⟨bound, hends⟩ := (evaluate_terminates formula layers).1
  obtain ⟨count, -, hc⟩ := hends { maxDepth := 1000000000 } nofun
  have hresult : (formula.evaluate layers { maxDepth := 1000000000 }).result =
      .error (.cyclicReference "x") := rfl
  exact ⟨count, hresult ▸ hc⟩

end VectorFormula.Formula
