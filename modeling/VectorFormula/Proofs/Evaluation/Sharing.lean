import VectorFormula.Proofs.Evaluation.Unguarded
import VectorFormula.Proofs.References.Guards
import VectorFormula.Proofs.References.Missing
/-!
Sharing. Whether names are bound to one formula or to copies of it is seen by the guards of
evaluation only (`evaluate_copies`).
-/
namespace VectorFormula

namespace Evaluation

variable {scope other : Scope} {options : Options} {formula copy : Formula}

/-- If no walk of references is longer than the limit, a copy of a formula has the same result in
copies of the scope: its walks are copies too, so that it meets no guard either. -/
theorem within_copies (h : Scope.Copies scope other) (hc : copy.expression = formula.expression)
    (hd : scope.Distinguishes formula) (hdc : other.Distinguishes copy)
    (hw : ∀ visits, scope.Walk formula visits → visits.length ≤ options.maxDepth) :
    (within other options options.maxDepth [] copy).result =
      (within scope options options.maxDepth [] formula).result := by
  have hwc (visits : List Formula) (hv : other.Walk copy visits) :
      visits.length ≤ options.maxDepth := by
    obtain ⟨others, ho, hl⟩ := h.symm.walk hc.symm hv
    rw [← hl]
    exact hw others ho
  exact within_unguarded h hc hd hdc (Scope.unguarded_nil hw) (Scope.unguarded_nil hwc)

end Evaluation

namespace Formula

variable {formula copy : Formula} {layers others : List Context} {options : Options}

private theorem result_copies (hc : copy.expression = formula.expression)
    (hl : layers.map Context.anonymous = others.map Context.anonymous)
    (hd : (Scope.ofLayers layers).Distinguishes formula)
    (hdc : (Scope.ofLayers others).Distinguishes copy)
    (hw : ∀ visits, (Scope.ofLayers layers).Walk formula visits →
      visits.length ≤ options.maxDepth) :
    (copy.evaluate others options).result = (formula.evaluate layers options).result := by
  have hcopies := Scope.copies_ofLayers hl
  have hunknowns :
      (Scope.ofLayers others).unknowns copy = (Scope.ofLayers layers).unknowns formula :=
    Scope.unknowns_congr hd hdc fun _ => hcopies.misses_iff hc
  rw [result_evaluate_eq, result_evaluate_eq, hunknowns,
    Evaluation.within_copies hcopies hc hd hdc hw]

/-- The identities of formulas are seen by the guards only. In layers that bind copies in place of
shared formulas, or the other way round, a formula has the same result if no walk of references from
it is longer than the limit; and whatever the references are, cycles included, it has a value in the
ones if and only if it has that value in the others. -/
theorem evaluate_copies (formula copy : Formula) (layers others : List Context) (options : Options)
    (hc : copy.expression = formula.expression)
    (hl : layers.map Context.anonymous = others.map Context.anonymous)
    (hd : (Scope.ofLayers layers).Distinguishes formula)
    (hdc : (Scope.ofLayers others).Distinguishes copy) :
    ((∀ visits, (Scope.ofLayers layers).Walk formula visits → visits.length ≤ options.maxDepth) →
      (copy.evaluate others options).result = (formula.evaluate layers options).result) ∧
    ∀ value, (copy.evaluate others options).result = .ok value ↔
      (formula.evaluate layers options).result = .ok value := by
  -- A formula that has a value met no guard, so its walks are short enough.
  refine ⟨result_copies hc hl hd hdc, fun value => ⟨fun hv => ?_, fun hv => ?_⟩⟩
  · rw [result_copies hc.symm hl.symm hdc hd fun visits => walks_of_evaluate hv]
    exact hv
  · rw [result_copies hc hl hd hdc fun visits => walks_of_evaluate hv]
    exact hv

/-- A vector of two names that are bound to one formula, or to two copies of it. -/
theorem evaluate_copies_vector :
    let vector : Expression := ⟨"[y]", [.load ["y"], .vector 1]⟩
    let formula : Formula := ⟨0, "[x, z]", [.load ["x"], .load ["z"], .vector 2]⟩
    let layers : List Context :=
      [⟨[("x", .formula ⟨1, vector⟩), ("y", .number 8.0), ("z", .formula ⟨1, vector⟩)]⟩]
    let others : List Context :=
      [⟨[("x", .formula ⟨1, vector⟩), ("y", .number 8.0), ("z", .formula ⟨2, vector⟩)]⟩]
    (Scope.ofLayers layers).Distinguishes formula ∧ (Scope.ofLayers others).Distinguishes formula ∧
      (∀ visits, (Scope.ofLayers layers).Walk formula visits → visits.length ≤ 1) ∧
      (formula.evaluate others { maxDepth := 1 }).result = .ok ⟨[8.0, 8.0]⟩ := by
  intro vector formula layers others
  have hformulas : (Scope.ofLayers layers).formulas = [⟨1, vector⟩, ⟨1, vector⟩] := rfl
  have hothers : (Scope.ofLayers others).formulas = [⟨1, vector⟩, ⟨2, vector⟩] := rfl
  have hd : (Scope.ofLayers layers).Distinguishes formula := by
    simp [Scope.Distinguishes, hformulas, formula]
  have hdo : (Scope.ofLayers others).Distinguishes formula := by
    simp [Scope.Distinguishes, hothers, formula]
  have hw (visits : List Formula) (hv : (Scope.ofLayers layers).Walk formula visits) :
      visits.length ≤ 1 :=
    @walks_of_evaluate formula layers { maxDepth := 1 } ⟨[8.0, 8.0]⟩ rfl visits hv
  exact ⟨hd, hdo, hw,
    (evaluate_copies formula formula layers others { maxDepth := 1 } rfl rfl hd hdo).1 hw⟩

end Formula

end VectorFormula
