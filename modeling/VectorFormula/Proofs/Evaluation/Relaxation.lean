import VectorFormula.Proofs.Machine.Loads
import VectorFormula.Proofs.Machine.Persistence
/-!
Relaxed options. An evaluation is refused by its options, or it decides on a result that stays under
all options that allow more (`evaluate_relaxed`).
-/
namespace VectorFormula

/-- Whether an error is one by which options refuse an evaluation that others may allow. -/
def RuntimeError.isRefusal : RuntimeError → Bool
  | recursionLimit _ | typeConversion _ _ | unresolvedIdentifiers _ => true
  | _ => false

/-- Whether options allow all that others do: formulas may be nested as deep, texts that are no
numbers are treated alike or read as zero, and names are not looked for if they were not before. -/
structure Options.Relaxes (relaxed options : Options) : Prop where
  maxDepth : options.maxDepth ≤ relaxed.maxDepth
  textFallback : relaxed.textFallback = options.textFallback ∨ relaxed.textFallback = .zero
  strict : relaxed.strict = options.strict ∨ relaxed.strict = false

namespace Evaluation

variable {scope : Scope} {options relaxed : Options}

private theorem readText_persists (h : relaxed.Relaxes options) (path : Path) (text : String) :
    Persists RuntimeError.isRefusal (readText options path text).result
      (readText relaxed path text).result := by
  unfold readText
  cases Decimal.read? (Text.trim text.toList) with
  | some x => exact .refl _ _
  | none =>
    rcases h.textFallback with ht | ht
    · rw [ht]
      cases options.textFallback <;> exact .refl _ _
    · rw [ht]
      cases options.textFallback with
      | error => exact .inl ⟨_, rfl, rfl⟩
      | zero => exact .refl _ _

/-- A run persists under relaxed options, with any number of further levels below it. -/
private theorem within_persists (h : relaxed.Relaxes options) (depth further : Nat)
    (chain : List Nat) (formula : Formula) :
    Persists RuntimeError.isRefusal (within scope options depth chain formula).result
      (within scope relaxed (depth + further) chain formula).result := by
  induction depth generalizing chain formula with
  | zero =>
    apply Program.run_persists
    intro path _
    apply load_persists rfl (readText_persists h path)
    -- At the limit no formula is entered, and this error may pass.
    exact fun next _ => ⟨Iff.rfl, fun _ => .inl ⟨_, rfl, rfl⟩⟩
  | succ depth ih =>
    apply Program.run_persists
    intro path _
    rw [Nat.succ_add]
    apply load_persists rfl (readText_persists h path)
    intro next _
    refine ⟨Iff.rfl, fun _ => ?_⟩
    rw [result_nested, result_nested]
    exact ih (formula.id :: chain) next

private theorem exists_enter_typeConversion (h : options.textFallback = .zero) {chain : List Nat}
    {enter : Path → Formula → Run Value} {path : Path} {name text : String}
    (he : (load scope options chain enter path).result = .error (.typeConversion name text)) :
    ∃ formula, (enter path formula).result = .error (.typeConversion name text) := by
  cases hr : scope.resolve path with
  | none =>
    rw [load_unresolved hr] at he
    cases he
  | some binding =>
    cases binding with
    | formula formula =>
      rw [load_formula hr] at he
      split at he
      · cases he
      · exact ⟨formula, he⟩
    | text bound =>
      simp only [load, hr, readText, h] at he
      split at he <;> cases he
    | _ =>
      simp only [load, hr] at he
      cases he

private theorem within_ne_typeConversion (h : options.textFallback = .zero) (depth : Nat)
    (chain : List Nat) (formula : Formula) (name text : String) :
    (within scope options depth chain formula).result ≠ .error (.typeConversion name text) := by
  induction depth generalizing chain formula with
  | zero =>
    intro he
    obtain ⟨path, -, he⟩ := Program.run_error he rfl
    obtain ⟨next, he⟩ := exists_enter_typeConversion h he
    cases he
  | succ depth ih =>
    intro he
    obtain ⟨path, -, he⟩ := Program.run_error he rfl
    obtain ⟨next, he⟩ := exists_enter_typeConversion h he
    rw [result_nested] at he
    exact ih _ next he

end Evaluation

namespace Formula

private theorem evaluate_persists {formula : Formula} {layers : List Context}
    {options relaxed : Options} (h : relaxed.Relaxes options) :
    Persists RuntimeError.isRefusal (formula.evaluate layers options).result
      (formula.evaluate layers relaxed).result := by
  rw [result_evaluate_eq, result_evaluate_eq]
  split
  · exact .inl ⟨_, rfl, rfl⟩
  · rename_i hbegun
    have hrelaxed : ¬ (relaxed.strict = true ∧ (Scope.ofLayers layers).unknowns formula ≠ []) := by
      rintro ⟨hs, hm⟩
      rcases h.strict with he | he
      · exact hbegun ⟨he ▸ hs, hm⟩
      · exact absurd hs (by simp [he])
    obtain ⟨further, hdepth⟩ := Nat.exists_eq_add_of_le h.maxDepth
    rw [if_neg hrelaxed, hdepth]
    exact Evaluation.within_persists h _ further [] formula

/-- Relaxing options never changes a result that is decided: a value, or an error that is no refusal
by the options. Where texts that are no numbers read as zero, no text fails to be read. -/
theorem evaluate_relaxed (formula : Formula) (layers : List Context) :
    (∀ options relaxed : Options, relaxed.Relaxes options →
      (∀ error, (formula.evaluate layers options).result = .error error →
        error.isRefusal = false) →
      (formula.evaluate layers relaxed).result = (formula.evaluate layers options).result) ∧
    ∀ options : Options, options.textFallback = .zero → ∀ name text,
      (formula.evaluate layers options).result ≠ .error (.typeConversion name text) := by
  constructor
  · intro options relaxed h hdecided
    rcases evaluate_persists h with ⟨error, he, hrefusal⟩ | heq
    · rw [hdecided error he] at hrefusal
      cases hrefusal
    · exact heq
  · intro options h name text he
    rcases result_evaluate formula layers options with ⟨names, hr⟩ | hr
    · rw [hr] at he
      cases he
    · exact Evaluation.within_ne_typeConversion h _ _ _ name text (hr.symm.trans he)

/-- A formula that refers to itself is found to do so at the limit of the nesting, in a strict
evaluation and in one with further levels. -/
theorem evaluate_relaxed_cyclic :
    let layers : List Context := [⟨[("x", .formula ⟨1, "[x]", [.load ["x"], .vector 1]⟩)]⟩]
    let formula : Formula := ⟨0, "x", [.load ["x"]]⟩
    let options : Options := { strict := true, maxDepth := 1 }
    let relaxed : Options := { textFallback := .zero, maxDepth := 64 }
    relaxed.Relaxes options ∧
      (formula.evaluate layers options).result = .error (.cyclicReference "x") ∧
      (formula.evaluate layers relaxed).result = .error (.cyclicReference "x") := by
  intro layers formula options relaxed
  have hrelaxes : relaxed.Relaxes options := ⟨by decide, .inr rfl, .inr rfl⟩
  have hx : (Scope.ofLayers layers).resolve ["x"] =
      some (.formula ⟨1, "[x]", [.load ["x"], .vector 1]⟩) := rfl
  have hunknowns : (Scope.ofLayers layers).unknowns formula = [] := by
    simp [Scope.unknowns, Scope.missing_formula hx, Scope.missing, program, Program.paths, formula]
  have hcyclic : (formula.evaluate layers options).result = .error (.cyclicReference "x") := by
    rw [result_evaluate_eq, if_neg (by simp [hunknowns])]
    rfl
  refine ⟨hrelaxes, hcyclic, ?_⟩
  rw [(evaluate_relaxed formula layers).1 options relaxed hrelaxes, hcyclic]
  rintro error he
  cases hcyclic.symm.trans he
  rfl

end Formula

end VectorFormula
