import VectorFormula.Proofs.Machine.Loads
import VectorFormula.Proofs.References.Walks
/-!
The guards of evaluation are exact: they report cycles and walks that are too long, and nothing
else (`evaluate_guards`).
-/
namespace VectorFormula

namespace Scope

/-- What the references from a formula are like where a guard reports an error. -/
def Warrants (scope : Scope) (root : Formula) (limit : Nat) : RuntimeError → Prop
  | .cyclicReference _ => ∃ formula, scope.Reaches root formula ∧ scope.Cyclic formula
  | .recursionLimit _ => ∃ visits, scope.Walk root visits ∧
      ((root :: visits).map (·.id)).Nodup ∧ limit < visits.length
  | _ => True

variable {scope : Scope} {root current formula : Formula} {outer : List Formula} {limit : Nat}

private theorem warrants_cyclicReference (hd : scope.Distinguishes root)
    (ht : scope.Entered root (current :: outer)) (hr : scope.Refers current formula)
    (hm : formula.id ∈ (current :: outer).map (·.id)) (name : String) :
    scope.Warrants root limit (.cyclicReference name) := by
  obtain ⟨entered, hin, hid⟩ := List.mem_map.mp hm
  obtain ⟨hroot, hcurrent⟩ := ht.reaches hin
  obtain rfl : entered = formula :=
    hd entered hroot.mem_formulas formula (List.mem_cons_of_mem _ hr.mem_formulas) hid
  exact ⟨entered, hroot, Relation.TransGen.tail' hcurrent hr⟩

private theorem warrants_recursionLimit (ht : scope.Entered root (current :: outer))
    (hr : scope.Refers current formula) (hm : formula.id ∉ (current :: outer).map (·.id))
    (hl : outer.length = limit) (shown : Nat) :
    scope.Warrants root limit (.recursionLimit shown) := by
  obtain ⟨visits, hv, hw, hn⟩ := (ht.enter hr hm).walk
  refine ⟨visits, hw, hn, ?_⟩
  have hlength : visits.length + 1 = outer.length + 2 := by
    simpa using (congrArg List.length hv).symm
  omega

end Scope

namespace Evaluation

variable {scope : Scope} {options : Options} {root current : Formula} {outer : List Formula}

private theorem run_warranted (hd : scope.Distinguishes root)
    (ht : scope.Entered root (current :: outer)) {enter : Path → Formula → Run Value}
    {error : RuntimeError}
    (hn : ∀ path formula, scope.Refers current formula →
      formula.id ∉ (current :: outer).map (·.id) → (enter path formula).result = .error error →
      scope.Warrants root options.maxDepth error)
    (he : (current.program.run
      (load scope options ((current :: outer).map (·.id)) enter)).result = .error error) :
    scope.Warrants root options.maxDepth error := by
  by_cases ho : error.isOperation = true
  · cases error <;> trivial
  obtain ⟨path, hp, he⟩ := Program.run_error he (Bool.eq_false_iff.mpr ho)
  cases hr : scope.resolve path with
  | none =>
    rw [load_unresolved hr] at he
    cases he
  | some binding =>
    by_cases hb : ∃ formula, binding = .formula formula
    · obtain ⟨formula, rfl⟩ := hb
      have href : scope.Refers current formula := ⟨path, hp, hr⟩
      rw [load_formula hr] at he
      split at he
      · rename_i hm
        cases he
        exact Scope.warrants_cyclicReference hd ht href hm path.text
      · rename_i hm
        exact hn path formula href hm he
    · obtain ⟨name, text, rfl⟩ := (load_other hr (not_exists.mp hb)).2 error he
      trivial

/-- Every error of an evaluation is warranted, given the formulas that are being evaluated and how
many more may be nested. -/
private theorem within_warranted (hd : scope.Distinguishes root) (depth : Nat)
    (ht : scope.Entered root (current :: outer)) (hl : outer.length + depth = options.maxDepth)
    {error : RuntimeError}
    (he : (within scope options depth (outer.map (·.id)) current).result = .error error) :
    scope.Warrants root options.maxDepth error := by
  induction depth generalizing current outer with
  | zero =>
    refine run_warranted hd ht ?_ he
    intro path formula href hm he
    cases he
    exact Scope.warrants_recursionLimit ht href hm hl options.maxDepth
  | succ depth ih =>
    refine run_warranted hd ht ?_ he
    intro path formula href hm he
    rw [nested, Run.result_bind] at he
    exact ih (ht.enter href hm) (by rw [List.length_cons]; omega) he

private theorem length_le_of_within {depth : Nat} {chain : List Nat} {value : Value}
    (h : (within scope options depth chain current).result = .ok value) {visits : List Formula}
    (hw : scope.Walk current visits) : visits.length ≤ depth := by
  induction visits generalizing depth chain current value with
  | nil => exact Nat.zero_le _
  | cons formula visits ih =>
    obtain ⟨⟨path, hp, hr⟩, hw⟩ := Scope.walk_cons.mp hw
    obtain ⟨⟨found, hv⟩, -⟩ := Program.run_reads h hp
    rw [reading, load_formula hr] at hv
    split at hv
    · cases hv
    · cases depth with
      | zero => cases hv
      | succ depth =>
        rw [nested, Run.result_bind] at hv
        exact Nat.succ_le_succ (ih hv hw)

end Evaluation

namespace Formula

variable {formula : Formula} {layers : List Context} {options : Options}

private theorem evaluate_warranted (hd : (Scope.ofLayers layers).Distinguishes formula)
    {error : RuntimeError} (he : (formula.evaluate layers options).result = .error error) :
    (Scope.ofLayers layers).Warrants formula options.maxDepth error := by
  rcases result_evaluate formula layers options with ⟨names, hr⟩ | hr
  · rw [hr] at he
    cases he
    trivial
  · rw [hr] at he
    exact Evaluation.within_warranted hd options.maxDepth .root (Nat.zero_add _) he

theorem walks_of_evaluate {value : Value}
    (hv : (formula.evaluate layers options).result = .ok value) {visits : List Formula}
    (hw : (Scope.ofLayers layers).Walk formula visits) : visits.length ≤ options.maxDepth := by
  rcases result_evaluate formula layers options with ⟨names, hr⟩ | hr
  · rw [hr] at hv
    cases hv
  · exact Evaluation.length_le_of_within (hr.symm.trans hv) hw

/-- Where identities tell formulas apart, the guards of evaluation are exact. If no walk of references
is longer than the limit, no guard reports an error; if the evaluation has a value, no walk is longer
than the limit, and none comes back to a formula; a cycle is reported only where one is reached; and
the limit is reported only where a walk without repetition is longer. -/
theorem evaluate_guards (formula : Formula) (layers : List Context) (options : Options)
    (hd : (Scope.ofLayers layers).Distinguishes formula) :
    let scope := Scope.ofLayers layers
    let result := (formula.evaluate layers options).result
    ((∀ visits, scope.Walk formula visits → visits.length ≤ options.maxDepth) →
      (∀ name, result ≠ .error (.cyclicReference name)) ∧
      ∀ limit, result ≠ .error (.recursionLimit limit)) ∧
    (∀ value, result = .ok value →
      (∀ visits, scope.Walk formula visits → visits.length ≤ options.maxDepth) ∧
      ∀ other, scope.Reaches formula other → ¬ scope.Cyclic other) ∧
    (∀ name, result = .error (.cyclicReference name) →
      ∃ other, scope.Reaches formula other ∧ scope.Cyclic other) ∧
    ∀ limit, result = .error (.recursionLimit limit) →
      ∃ visits, scope.Walk formula visits ∧ ((formula :: visits).map (·.id)).Nodup ∧
        options.maxDepth < visits.length := by
  intro scope result
  refine ⟨?_, ?_, fun name he => evaluate_warranted hd he, fun limit he => evaluate_warranted hd he⟩
  · intro hb
    constructor
    · intro name he
      obtain ⟨other, ho, hc⟩ := evaluate_warranted hd he
      exact Scope.not_cyclic_of_bounded hb ho hc
    · intro limit he
      obtain ⟨visits, hw, -, hl⟩ := evaluate_warranted hd he
      exact absurd (hb visits hw) (Nat.not_le_of_lt hl)
  · intro value hv
    have hb : ∀ visits, scope.Walk formula visits → visits.length ≤ options.maxDepth :=
      fun visits hw => walks_of_evaluate hv hw
    exact ⟨hb, fun other ho => Scope.not_cyclic_of_bounded hb ho⟩

/-- A formula that is read three times, on two ways of one step and of two. Two levels of nesting are
enough for it, but one is not; and where it refers back, the cycle is reported. -/
theorem evaluate_guards_shared :
    let formula : Formula := ⟨0, "[a, b]", [.load ["a"], .load ["b"], .vector 2]⟩
    let between : Binding := .formula ⟨1, "[b, b]", [.load ["b"], .load ["b"], .vector 2]⟩
    let layers : List Context :=
      [⟨[("a", between), ("b", .formula ⟨2, "x", [.load ["x"]]⟩), ("x", .number 5.0)]⟩]
    let looped : List Context := [⟨[("a", between), ("b", .formula ⟨2, "a", [.load ["a"]]⟩)]⟩]
    (Scope.ofLayers layers).Distinguishes formula ∧ (Scope.ofLayers looped).Distinguishes formula ∧
    ((formula.evaluate layers { maxDepth := 2 }).result = .ok ⟨[5.0, 5.0, 5.0]⟩ ∧
      ∀ visits, (Scope.ofLayers layers).Walk formula visits → visits.length ≤ 2) ∧
    ((formula.evaluate layers { maxDepth := 1 }).result = .error (.recursionLimit 1) ∧
      ∃ visits, (Scope.ofLayers layers).Walk formula visits ∧
        ((formula :: visits).map (·.id)).Nodup ∧ 1 < visits.length) ∧
    ((formula.evaluate looped {}).result = .error (.cyclicReference "a") ∧
      ∃ other, (Scope.ofLayers looped).Reaches formula other ∧
        (Scope.ofLayers looped).Cyclic other) := by
  intro formula between layers looped
  have hd : (Scope.ofLayers layers).Distinguishes formula := by
    have hformulas : (Scope.ofLayers layers).formulas =
        [⟨1, "[b, b]", [.load ["b"], .load ["b"], .vector 2]⟩, ⟨2, "x", [.load ["x"]]⟩] := rfl
    simp [Scope.Distinguishes, hformulas, formula]
  have hl : (Scope.ofLayers looped).Distinguishes formula := by
    have hformulas : (Scope.ofLayers looped).formulas =
        [⟨1, "[b, b]", [.load ["b"], .load ["b"], .vector 2]⟩, ⟨2, "a", [.load ["a"]]⟩] := rfl
    simp [Scope.Distinguishes, hformulas, formula]
  obtain ⟨-, hvalue, -, -⟩ := evaluate_guards formula layers { maxDepth := 2 } hd
  obtain ⟨-, -, -, hlimit⟩ := evaluate_guards formula layers { maxDepth := 1 } hd
  obtain ⟨-, -, hcycle, -⟩ := evaluate_guards formula looped {} hl
  exact ⟨hd, hl, ⟨rfl, (hvalue _ rfl).1⟩, ⟨rfl, hlimit 1 rfl⟩, ⟨rfl, hcycle "a" rfl⟩⟩

end Formula

end VectorFormula
