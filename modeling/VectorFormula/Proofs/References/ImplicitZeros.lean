import Mathlib.Data.Set.Basic
import VectorFormula.Proofs.Machine.Loads
import VectorFormula.Proofs.References.Missing
import VectorFormula.Proofs.References.Names
/-!
The names that an evaluation reads as zero are among those that the formula misses, and they are all
of those if the evaluation has a value (`evaluate_implicitZeros`).
-/
namespace VectorFormula

/-- The roots of the dotted names that a run reads as zero because they lead nowhere. -/
def Run.implicitZeros (run : Run Value) : Set String :=
  {name | ∃ path, .readAsZero path ∈ run.events ∧ path.head? = some name}

namespace Evaluation

variable {scope : Scope} {options : Options} {current : Formula} {path : Path}

private theorem unresolved_of_mem_run {chain : List Nat} {enter : Path → Formula → Run Value}
    (hn : ∀ other formula, .readAsZero path ∈ (enter other formula).events →
      ∃ reached, scope.Reaches formula reached ∧ path ∈ reached.program.paths ∧
        scope.resolve path = none)
    (h : .readAsZero path ∈ (current.program.run (load scope options chain enter)).events) :
    ∃ reached, scope.Reaches current reached ∧ path ∈ reached.program.paths ∧
      scope.resolve path = none := by
  rcases Program.mem_events_run h with ⟨_, _, ⟨⟩⟩ | ⟨other, ho, h⟩
  cases hr : scope.resolve other with
  | none =>
    rw [load_unresolved hr] at h
    obtain rfl : path = other := by simpa using h
    exact ⟨current, .refl, ho, hr⟩
  | some binding =>
    by_cases hb : ∃ formula, binding = .formula formula
    · obtain ⟨formula, rfl⟩ := hb
      rw [load_formula hr] at h
      split at h
      · cases h
      · obtain ⟨reached, hreach, hu⟩ := hn other formula h
        exact ⟨reached, .head ⟨other, ho, hr⟩ hreach, hu⟩
    · exact absurd h ((load_other hr (not_exists.mp hb)).1 path)

private theorem unresolved_of_mem_within {depth : Nat} {chain : List Nat}
    (h : .readAsZero path ∈ (within scope options depth chain current).events) :
    ∃ reached, scope.Reaches current reached ∧ path ∈ reached.program.paths ∧
      scope.resolve path = none := by
  induction depth generalizing current chain with
  | zero => exact unresolved_of_mem_run (fun _ _ h => by cases h) h
  | succ depth ih =>
    apply unresolved_of_mem_run _ h
    intro other formula h
    rcases Run.mem_events_bind.mp h with h | ⟨_, -, h⟩
    · cases List.mem_singleton.mp h
    · exact ih h

private theorem mem_within_of_unresolved {depth : Nat} {chain : List Nat} {value : Value}
    (h : (within scope options depth chain current).result = .ok value) {reached : Formula}
    (hreach : scope.Reaches current reached) (hp : path ∈ reached.program.paths)
    (hr : scope.resolve path = none) :
    .readAsZero path ∈ (within scope options depth chain current).events := by
  induction hreach using Relation.ReflTransGen.head_induction_on generalizing depth chain value with
  | refl =>
    apply (Program.run_reads h hp).2
    rw [reading, load_unresolved hr]
    exact List.mem_singleton_self _
  | @head current next hnext _ ih =>
    obtain ⟨other, ho, hf⟩ := hnext
    obtain ⟨⟨found, hv⟩, he⟩ := Program.run_reads h ho
    apply he
    rw [reading, load_formula hf] at hv ⊢
    split at hv
    · cases hv
    · rename_i hm
      rw [if_neg hm]
      cases depth with
      | zero => cases hv
      | succ depth =>
        rw [nested, Run.result_bind] at hv
        exact Run.mem_events_bind.mpr (.inr ⟨(), rfl, ih hv⟩)

theorem within_congr {other : Options} (ht : options.textFallback = other.textFallback)
    (hm : options.maxDepth = other.maxDepth) (depth : Nat) :
    within scope options depth = within scope other depth := by
  have hload : load scope options = load scope other := by
    funext chain enter path
    simp only [load, readText, ht]
  have hnested : nested scope options depth = nested scope other depth := by
    induction depth with
    | zero =>
      funext chain path formula
      rw [nested, nested, hm]
    | succ depth ih =>
      funext chain path formula
      rw [nested, nested, ih, hload]
  funext chain formula
  rw [within, within, reading, reading, hload, hnested]

end Evaluation

namespace Formula

private theorem mem_evaluate {layers : List Context} {options : Options} {formula : Formula}
    (hs : options.strict = false) {path : Path} :
    .readAsZero path ∈ (formula.evaluate layers options).events ↔ .readAsZero path ∈
      (Evaluation.within (.ofLayers layers) options options.maxDepth [] formula).events := by
  rw [@evaluate_eq formula layers options (by simp [hs])]
  simp only [List.mem_cons, reduceCtorEq, false_or]

private theorem compiled_of_reaches {formula reached : Formula} {layers : List Context}
    (hf : formula.expression.Compiled)
    (hl : ∀ layer ∈ layers, ∀ bound ∈ Binding.formulasOf layer.entries, bound.expression.Compiled)
    (h : (Scope.ofLayers layers).Reaches formula reached) : reached.expression.Compiled := by
  rcases List.mem_cons.mp h.mem_formulas with rfl | hm
  · exact hf
  · obtain ⟨layer, hm, hb⟩ := Scope.mem_formulas_ofLayers.mp hm
    exact hl layer hm reached hb

/-- What an evaluation that is not strict reads as zero is unknown to the formula, and all unknown
names are read so if the evaluation has a value. A formula without unknown names reads nothing as
zero, and its strict evaluation is the same run. -/
theorem evaluate_implicitZeros (formula : Formula) (layers : List Context) (options : Options)
    (hs : options.strict = false) (hd : (Scope.ofLayers layers).Distinguishes formula)
    (hf : formula.expression.Compiled)
    (hl : ∀ layer ∈ layers, ∀ bound ∈ Binding.formulasOf layer.entries,
      bound.expression.Compiled) :
    let run := formula.evaluate layers options
    run.implicitZeros ⊆ {name | name ∈ formula.unknowns layers} ∧
    (∀ value, run.result = .ok value →
      run.implicitZeros = {name | name ∈ formula.unknowns layers}) ∧
    (formula.isValid layers = true →
      (∀ path, .readAsZero path ∉ run.events) ∧
      formula.evaluate layers { options with strict := true } = run) := by
  intro run
  have hsub : run.implicitZeros ⊆ {name | name ∈ formula.unknowns layers} := by
    rintro name ⟨path, he, hh⟩
    obtain ⟨reached, hreach, hp, hr⟩ :=
      Evaluation.unresolved_of_mem_within ((mem_evaluate hs).mp he)
    exact (Scope.mem_unknowns hd).mpr ⟨reached, hreach, path, hp, hr, hh⟩
  refine ⟨hsub, ?_, ?_⟩
  · intro value hv
    apply Set.Subset.antisymm hsub
    intro name hn
    obtain ⟨reached, hreach, path, hp, hr, hh⟩ := (Scope.mem_unknowns hd).mp hn
    have hwithin : (Evaluation.within (.ofLayers layers) options options.maxDepth [] formula).result =
        .ok value := by
      rw [show run = _ from evaluate_eq (by simp [hs])] at hv
      exact hv
    exact ⟨path, (mem_evaluate hs).mpr (Evaluation.mem_within_of_unresolved hwithin hreach hp hr), hh⟩
  · intro hvalid
    have hnone : formula.unknowns layers = [] := List.isEmpty_iff.mp hvalid
    constructor
    · intro path he
      obtain ⟨reached, hreach, hp, hr⟩ :=
        Evaluation.unresolved_of_mem_within ((mem_evaluate hs).mp he)
      have hne : path ≠ [] := (compiled_of_reaches hf hl hreach).path_ne_nil hp
      have hroot : path.head hne ∈ formula.unknowns layers :=
        hsub ⟨path, he, List.head?_eq_some_head hne⟩
      rw [hnone] at hroot
      cases hroot
    · rw [evaluate_eq fun _ => hnone, show run = _ from evaluate_eq (by simp [hs])]
      rw [@Evaluation.within_congr _ { options with strict := true } options rfl rfl]

/-- A vector of a name that is bound to a vector of a name that leads nowhere, which is read as
zero. -/
theorem evaluate_implicitZeros_nested :
    let layers : List Context := [⟨[("x", .formula ⟨1, "[y]", [.load ["y"], .vector 1]⟩)]⟩]
    let formula : Formula := ⟨0, "[x]", [.load ["x"], .vector 1]⟩
    (Scope.ofLayers layers).Distinguishes formula ∧ formula.expression.Compiled ∧
      (formula.evaluate layers {}).implicitZeros = {name | name ∈ formula.unknowns layers} := by
  intro layers formula
  have hcompiled (text name : String)
      (ht : Token.ofText? text.toList = some (Term.vector [.named [name]]).tokens) :
      Expression.Compiled ⟨text, [.load [name], .vector 1]⟩ := by
    have hs : Term.StandsFor .builtin text (.vector [.named [name]]) :=
      ⟨ht, .vector (by simp [Term.WellGrouped.named]), .vector (by simp [Term.Over.named])⟩
    have hc := (Expression.compile_eq_ok hs.not_blank).mpr ⟨_, hs, by cbv, rfl⟩
    exact .parsed (by rw [Expression.parseWith, hc]; rfl)
  have hd : (Scope.ofLayers layers).Distinguishes formula := by
    simp [layers, formula, Scope.Distinguishes, Scope.formulas, Scope.ofLayers, constants,
      NameTable.ofList, NameTable.insertAll, NameTable.insert, NameTable.put, Binding.formulasOf,
      Binding.formulas]
  have hf : formula.expression.Compiled := hcompiled "[x]" "x" (by cbv)
  have hl : ∀ layer ∈ layers, ∀ bound ∈ Binding.formulasOf layer.entries,
      bound.expression.Compiled := by
    have hy : Expression.Compiled ⟨"[y]", [.load ["y"], .vector 1]⟩ := hcompiled _ "y" (by cbv)
    simpa [layers, Binding.formulasOf, Binding.formulas] using hy
  exact ⟨hd, hf, (evaluate_implicitZeros formula layers {} rfl hd hf hl).2.1 ⟨[0.0]⟩ rfl⟩

end Formula

end VectorFormula
