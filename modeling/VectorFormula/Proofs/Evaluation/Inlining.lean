import Mathlib.Tactic.Tauto
import VectorFormula.Proofs.Compilation
import VectorFormula.Proofs.Evaluation.Unguarded
import VectorFormula.Proofs.Machine.Refinement
import VectorFormula.Proofs.References.Missing
/-!
Inlining. Where no guard of evaluation is met, a program with the program of a formula in place of
a name that leads to the formula has the same result (`evaluate_inlined`).
-/
namespace VectorFormula

namespace Program

variable {load other : Path → Run Value}

/-- A segment that pushes what a name reads as may stand in place of the name, if all other names are
read with the same results. -/
theorem run_inlined {before program after : Program} {path : Path}
    (hp : Pushes other program (load path).result)
    (h : ∀ name, Instruction.load name ∈ before ∨ .load name ∈ after →
      (other name).result = (load name).result) :
    (Program.run other (before ++ program ++ after)).result =
      (Program.run load (before ++ [.load path] ++ after)).result := by
  have hbefore (stack : Stack) :
      (execute other before stack).result = (execute load before stack).result :=
    execute_congr (fun name hn => h name (.inl (mem_paths.mp hn))) stack
  have hafter (stack : Stack) :
      (execute other after stack).result = (execute load after stack).result :=
    execute_congr (fun name hn => h name (.inr (mem_paths.mp hn))) stack
  simp only [Program.run, Run.result_bind, hp.segment, (pushes_load load path).segment, hbefore,
    hafter]

end Program

theorem Expression.Compiled.pushes {expression : Expression} (h : expression.Compiled)
    (load : Path → Run Value) :
    Program.Pushes load expression.program (expression.program.run load).result := by
  have hterm : ∃ term : Term, expression.program = term.program := by
    rcases h.exists_term with hb | ⟨_, _, term, -, ht⟩
    · exact ⟨.number 0.0, hb⟩
    · exact ⟨term, ht.symm⟩
  obtain ⟨term, ht⟩ := hterm
  have hp := Term.program_pushes load term
  rw [ht, hp.run]
  exact hp

namespace Scope

variable {scope : Scope} {formula other bound inlined : Formula} {before after : Program}
  {path : Path}

/-- Whether a formula comes of another one by inlining: in place of a dotted name that leads to a bound
formula it has the program of that formula. -/
structure Inlines (scope : Scope) (formula bound inlined : Formula) (before after : Program)
    (path : Path) : Prop where
  program : formula.program = before ++ [.load path] ++ after
  resolve : scope.resolve path = some (.formula bound)
  inlined : inlined.program = before ++ bound.program ++ after

namespace Inlines

variable {name : Path}

theorem mem_paths (h : scope.Inlines formula bound inlined before after path) :
    name ∈ formula.program.paths ↔
      (.load name ∈ before ∨ .load name ∈ after) ∨ name = path := by
  simp only [Program.mem_paths, h.program, List.mem_append, List.mem_singleton,
    Instruction.load.injEq]
  tauto

theorem mem_paths_inlined (h : scope.Inlines formula bound inlined before after path) :
    name ∈ inlined.program.paths ↔
      (.load name ∈ before ∨ .load name ∈ after) ∨ name ∈ bound.program.paths := by
  simp only [Program.mem_paths, h.inlined, List.mem_append]
  tauto

theorem refers_bound (h : scope.Inlines formula bound inlined before after path) :
    scope.Refers formula bound :=
  ⟨path, h.mem_paths.mpr (.inr rfl), h.resolve⟩

theorem refers (h : scope.Inlines formula bound inlined before after path)
    (hr : scope.Refers inlined other) : scope.Refers formula other ∨ scope.Refers bound other := by
  obtain ⟨name, hn, hr⟩ := hr
  rcases h.mem_paths_inlined.mp hn with hn | hn
  · exact .inl ⟨name, h.mem_paths.mpr (.inl hn), hr⟩
  · exact .inr ⟨name, hn, hr⟩

theorem length_le (h : scope.Inlines formula bound inlined before after path) {limit : Nat}
    (hw : ∀ visits, scope.Walk formula visits → visits.length ≤ limit) {visits : List Formula}
    (hv : scope.Walk inlined visits) : visits.length ≤ limit := by
  cases visits with
  | nil => exact Nat.zero_le _
  | cons visit rest =>
    obtain ⟨hr, hrest⟩ := walk_cons.mp hv
    rcases h.refers hr with hr | hr
    · exact hw _ (walk_cons.mpr ⟨hr, hrest⟩)
    · exact Nat.le_of_succ_le
        (hw (bound :: visit :: rest) (walk_cons.mpr ⟨h.refers_bound, walk_cons.mpr ⟨hr, hrest⟩⟩))

theorem misses_iff (h : scope.Inlines formula bound inlined before after path) (name : String) :
    scope.Misses inlined name ↔ scope.Misses formula name := by
  constructor
  · intro hm
    obtain ⟨other, ho, hm⟩ := Scope.misses_iff.mp hm
    rcases h.mem_paths_inlined.mp ho with ho | ho
    · exact Scope.misses_iff.mpr ⟨other, h.mem_paths.mpr (.inl ho), hm⟩
    · have hbound : scope.Misses bound name := Scope.misses_iff.mpr ⟨other, ho, hm⟩
      exact Scope.misses_iff.mpr
        ⟨path, h.mem_paths.mpr (.inr rfl), .inr ⟨bound, h.resolve, hbound⟩⟩
  · intro hm
    obtain ⟨other, ho, hm⟩ := Scope.misses_iff.mp hm
    rcases h.mem_paths.mp ho with ho | rfl
    · exact Scope.misses_iff.mpr ⟨other, h.mem_paths_inlined.mpr (.inl ho), hm⟩
    · rcases hm with ⟨hn, -⟩ | ⟨next, hr, hm⟩
      · cases h.resolve.symm.trans hn
      · cases h.resolve.symm.trans hr
        obtain ⟨other, ho, hm⟩ := Scope.misses_iff.mp hm
        exact Scope.misses_iff.mpr ⟨other, h.mem_paths_inlined.mpr (.inr ho), hm⟩

end Inlines

end Scope

namespace Evaluation

variable {scope : Scope} {options : Options} {formula other bound inlined : Formula} {path : Path}

/-- The program of a bound formula has the same value in the formula that it is inlined in as where
the name is read that leads to it. -/
theorem run_bound {before after : Program} {depth : Nat}
    (h : scope.Inlines formula bound inlined before after path) (hd : scope.Distinguishes formula)
    (hdi : scope.Distinguishes inlined) (hu : scope.Unguarded formula depth [])
    (hui : scope.Unguarded inlined depth []) :
    (bound.program.run (reading scope options depth [inlined.id])).result =
      (reading scope options depth [formula.id] path).result := by
  obtain ⟨less, rfl, hub⟩ := hu.refers hd h.refers_bound
  rw [result_reading h.resolve (hub.fresh bound .refl)]
  apply Program.run_congr
  intro name hn
  exact reading_unguarded (.refl scope) (hd.refers h.refers_bound) hdi hub hui hn
    (h.mem_paths_inlined.mpr (.inr hn))

theorem within_inlined {before after : Program}
    (h : scope.Inlines formula bound inlined before after path) (hc : bound.expression.Compiled)
    (hd : scope.Distinguishes formula) (hdi : scope.Distinguishes inlined)
    (hw : ∀ visits, scope.Walk formula visits → visits.length ≤ options.maxDepth) :
    (within scope options options.maxDepth [] inlined).result =
      (within scope options options.maxDepth [] formula).result := by
  have hu : scope.Unguarded formula options.maxDepth [] := Scope.unguarded_nil hw
  have hui : scope.Unguarded inlined options.maxDepth [] :=
    Scope.unguarded_nil fun _ hv => h.length_le hw hv
  rw [within, within, h.program, h.inlined]
  apply Program.run_inlined
  · rw [← run_bound h hd hdi hu hui]
    exact hc.pushes _
  · intro name hn
    exact reading_unguarded (.refl scope) hd hdi hu hui (h.mem_paths.mpr (.inl hn))
      (h.mem_paths_inlined.mpr (.inl hn))

end Evaluation

namespace Formula

/-- Inlining a bound formula preserves meaning, whatever the scope and the options: where identities
tell formulas apart and no walk of references from a formula is longer than the limit, a run of the
formula has the same result with the program of a bound formula in place of a name that leads there;
and so has its evaluation in layers, which is refused for the same names if it is strict. -/
theorem evaluate_inlined (scope : Scope) (options : Options) {formula bound inlined : Formula}
    {before after : Program} {path : Path}
    (h : scope.Inlines formula bound inlined before after path) (hc : bound.expression.Compiled)
    (hd : scope.Distinguishes formula) (hdi : scope.Distinguishes inlined)
    (hw : ∀ visits, scope.Walk formula visits → visits.length ≤ options.maxDepth) :
    (Evaluation.within scope options options.maxDepth [] inlined).result =
      (Evaluation.within scope options options.maxDepth [] formula).result ∧
    ∀ layers, scope = .ofLayers layers →
      (inlined.evaluate layers options).result = (formula.evaluate layers options).result := by
  have hwithin := Evaluation.within_inlined h hc hd hdi hw
  refine ⟨hwithin, ?_⟩
  rintro layers rfl
  rw [result_evaluate_eq, result_evaluate_eq, Scope.unknowns_congr hd hdi h.misses_iff, hwithin]

/-- A vector of a name that is bound to a vector of another name, and of that other name. -/
theorem evaluate_inlined_vector :
    let bound : Formula := ⟨1, "[y]", [.load ["y"], .vector 1]⟩
    let formula : Formula := ⟨0, "[x, y]", [.load ["x"], .load ["y"], .vector 2]⟩
    let inlined : Formula := ⟨2, "[[y], y]", [.load ["y"], .vector 1, .load ["y"], .vector 2]⟩
    let layers : List Context := [⟨[("x", .formula bound), ("y", .number 8.0)]⟩]
    (Scope.ofLayers layers).Inlines formula bound inlined [] [.load ["y"], .vector 2] ["x"] ∧
      bound.expression.Compiled ∧ (Scope.ofLayers layers).Distinguishes formula ∧
      (Scope.ofLayers layers).Distinguishes inlined ∧
      (∀ visits, (Scope.ofLayers layers).Walk formula visits → visits.length ≤ 1) ∧
      (inlined.evaluate layers { maxDepth := 1 }).result = .ok ⟨[8.0, 8.0]⟩ := by
  intro bound formula inlined layers
  have h : (Scope.ofLayers layers).Inlines formula bound inlined [] [.load ["y"], .vector 2] ["x"] :=
    ⟨rfl, rfl, rfl⟩
  have hc : bound.expression.Compiled := by
    have hs : Term.StandsFor .builtin "[y]" (.vector [.named ["y"]]) :=
      ⟨Token.ofText?_eq_some.mpr (by cbv), .vector (by simp [Term.WellGrouped.named]),
        .vector (by simp [Term.Over.named])⟩
    have hp : Expression.compile .builtin "[y]" = .ok [.load ["y"], .vector 1] :=
      (Expression.compile_eq_ok hs.not_blank).mpr ⟨_, hs, by decide, rfl⟩
    exact .parsed (by rw [Expression.parseWith, hp]; rfl)
  have hformulas : (Scope.ofLayers layers).formulas = [bound] := rfl
  have hd : (Scope.ofLayers layers).Distinguishes formula := by
    simp [Scope.Distinguishes, hformulas, formula, bound]
  have hdi : (Scope.ofLayers layers).Distinguishes inlined := by
    simp [Scope.Distinguishes, hformulas, inlined, bound]
  have hend {visits : List Formula} (hv : (Scope.ofLayers layers).Walk bound visits) :
      visits = [] := by
    cases visits with
    | nil => rfl
    | cons visit rest =>
      obtain ⟨⟨path, hp, hr⟩, -⟩ := Scope.walk_cons.mp hv
      obtain rfl : path = ["y"] := by simpa [bound, program] using hp
      cases hr
  have hw (visits : List Formula) (hv : (Scope.ofLayers layers).Walk formula visits) :
      visits.length ≤ 1 := by
    cases visits with
    | nil => exact Nat.zero_le _
    | cons visit rest =>
      obtain ⟨hr, hrest⟩ := Scope.walk_cons.mp hv
      obtain rfl : visit = bound := by simpa [hformulas] using hr.mem_formulas
      rw [hend hrest]
      exact Nat.le_refl 1
  exact ⟨h, hc, hd, hdi, hw, (evaluate_inlined _ { maxDepth := 1 } h hc hd hdi hw).2 layers rfl⟩

end Formula

end VectorFormula
