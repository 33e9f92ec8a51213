import VectorFormula.Evaluation
import VectorFormula.Proofs.References.Copies
import VectorFormula.Proofs.References.Missing
/-!
Unknown names are a matter of reachability alone (`unknowns_reachability`): neither the order in which
formulas are looked into nor whether they are shared makes a difference.
-/
namespace VectorFormula.Formula

open Scope (Search)

/-- The unknown names of a formula are the roots of the dotted names that lead nowhere, in any formula
that it reaches. Whatever order a search for them takes, it comes to an end and has found these names
then. In layers that bind copies in place of shared formulas, or the other way round, the unknown
names are the same. -/
theorem unknowns_reachability (formula : Formula) (layers : List Context)
    (hd : (Scope.ofLayers layers).Distinguishes formula) :
    let scope := Scope.ofLayers layers
    (∀ name, name ∈ formula.unknowns layers ↔ ∃ reached, scope.Reaches formula reached ∧
      ∃ path ∈ reached.program.paths, scope.resolve path = none ∧ path.head? = some name) ∧
    (Acc (fun next search => Search.Step scope search next) (Search.start formula) ∧
      ∀ last, Search.Run scope (Search.start formula) last →
        (∀ next, ¬ Search.Step scope last next) →
        Scope.sortedNames last.found = formula.unknowns layers) ∧
    ∀ (copy : Formula) (others : List Context), copy.expression = formula.expression →
      layers.map Context.anonymous = others.map Context.anonymous →
      (Scope.ofLayers others).Distinguishes copy →
      copy.unknowns others = formula.unknowns layers := by
  intro scope
  refine ⟨fun name => Scope.mem_unknowns hd, ⟨Search.acc scope _, ?_⟩, ?_⟩
  · intro last hrun hstuck
    have htodo : last.todo = [] := by
      by_contra hne
      obtain ⟨next, hs⟩ := Search.exists_step hne
      exact hstuck next hs
    apply (Scope.pairwise_sortedNames _).eq_of_mem_iff (Scope.pairwise_sortedNames _)
    intro name
    exact Scope.mem_sortedNames.trans
      ((hrun.mem_found hd htodo).trans (Scope.mem_unknowns hd).symm)
  · intro copy others hc hl hdc
    have hcopies := Scope.copies_ofLayers hl
    apply (Scope.pairwise_sortedNames _).eq_of_mem_iff (Scope.pairwise_sortedNames _)
    intro name
    exact (Scope.mem_unknowns hdc).trans
      ((hcopies.misses_iff hc).trans (Scope.mem_unknowns hd).symm)

/-- Two names of one formula that refers to itself, or of two copies of it. -/
theorem unknowns_reachability_cyclic :
    let cyclic : Expression := ⟨"[x, y]", [.load ["x"], .load ["y"], .vector 2]⟩
    let layers : List Context := [⟨[("x", .formula ⟨1, cyclic⟩), ("z", .formula ⟨1, cyclic⟩)]⟩]
    let others : List Context := [⟨[("x", .formula ⟨1, cyclic⟩), ("z", .formula ⟨2, cyclic⟩)]⟩]
    let formula : Formula := ⟨0, "[x, z]", [.load ["x"], .load ["z"], .vector 2]⟩
    (Scope.ofLayers layers).Distinguishes formula ∧ (Scope.ofLayers others).Distinguishes formula ∧
      "y" ∈ formula.unknowns layers ∧ formula.unknowns others = formula.unknowns layers := by
  intro cyclic layers others formula
  have hd : (Scope.ofLayers layers).Distinguishes formula := by
    simp [layers, formula, Scope.Distinguishes, Scope.formulas, Scope.ofLayers, constants,
      NameTable.ofList, NameTable.insertAll, NameTable.insert, NameTable.put, Binding.formulasOf,
      Binding.formulas]
  have hdo : (Scope.ofLayers others).Distinguishes formula := by
    simp [others, formula, Scope.Distinguishes, Scope.formulas, Scope.ofLayers, constants,
      NameTable.ofList, NameTable.insertAll, NameTable.insert, NameTable.put, Binding.formulasOf,
      Binding.formulas]
  obtain ⟨hmem, -, hcopies⟩ := unknowns_reachability formula layers hd
  have hreach : (Scope.ofLayers layers).Reaches formula ⟨1, cyclic⟩ :=
    .single ⟨["x"], by simp [formula, program], rfl⟩
  refine ⟨hd, hdo, (hmem "y").mpr ⟨_, hreach, ["y"], ?_, rfl, rfl⟩, hcopies formula others rfl rfl hdo⟩
  simp [program, cyclic]

end VectorFormula.Formula
