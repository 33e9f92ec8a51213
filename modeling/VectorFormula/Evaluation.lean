import VectorFormula.Evaluation.Machine
import VectorFormula.Scope.Unknowns
/-!
Evaluation of formulas in a scope. A formula that a name is bound to is evaluated in the same
scope, within a limit on the nesting; a formula that is being evaluated is not entered again.
-/
namespace VectorFormula

inductive TextFallback where
  | error | zero
  deriving DecidableEq, Repr

structure Options where
  strict : Bool := false
  textFallback : TextFallback := .error
  maxDepth : Nat := 64
  deriving DecidableEq, Repr

namespace Evaluation

def readText (options : Options) (path : Path) (text : String) : Run Value :=
  match Decimal.read? (Text.trim text.toList) with
  | some x => pure (.scalar x)
  | none =>
    match options.textFallback with
    | .error => Run.fail (.typeConversion path.text text)
    | .zero => do
      Run.report (.substituted path text)
      return .scalar 0.0

/-- Reads a dotted name, given the formulas that are being evaluated and a way to enter another. A
name that leads nowhere reads as zero. -/
def load (scope : Scope) (options : Options) (chain : List Nat)
    (enter : Path → Formula → Run Value) (path : Path) : Run Value :=
  match scope.resolve path with
  | none => do
    Run.report (.readAsZero path)
    return .scalar 0.0
  | some (.number x) => pure (.scalar x)
  | some (.truth b) => pure (.ofBool b)
  | some (.value v) => pure v
  | some (.item v _) => pure v
  | some (.text s) => readText options path s
  | some (.formula f) =>
    if chain.contains f.id then Run.fail (.cyclicReference path.text) else enter path f

/-- Enters a formula that a name is bound to, given the formulas that are being evaluated and how
many more may be nested. -/
def nested (scope : Scope) (options : Options) : Nat → List Nat → Path → Formula → Run Value
  | 0, _, _, _ => Run.fail (.recursionLimit options.maxDepth)
  | depth + 1, chain, path, formula => do
    Run.report (.nested path formula.text)
    let chain := formula.id :: chain
    formula.program.run (load scope options chain (nested scope options depth chain))

def reading (scope : Scope) (options : Options) (depth : Nat) (chain : List Nat) :
    Path → Run Value :=
  load scope options chain (nested scope options depth chain)

def within (scope : Scope) (options : Options) (depth : Nat) (chain : List Nat)
    (formula : Formula) : Run Value :=
  formula.program.run (reading scope options depth (formula.id :: chain))

section

variable {scope : Scope} {options : Options} {chain : List Nat} {path : Path}
  {enter : Path → Formula → Run Value}

theorem load_unresolved (h : scope.resolve path = none) :
    load scope options chain enter path = ⟨[.readAsZero path], .ok (.scalar 0.0)⟩ := by
  simp only [load, h]
  rfl

theorem load_formula {formula : Formula} (h : scope.resolve path = some (.formula formula)) :
    load scope options chain enter path =
      if formula.id ∈ chain then Run.fail (.cyclicReference path.text) else enter path formula := by
  simp only [load, h, List.contains_iff_mem]

theorem load_other {binding : Binding} (h : scope.resolve path = some binding)
    (hb : ∀ formula, binding ≠ .formula formula) :
    (∀ other, .readAsZero other ∉ (load scope options chain enter path).events) ∧
      ∀ error, (load scope options chain enter path).result = .error error →
        ∃ name text, error = .typeConversion name text := by
  cases binding with
  | formula formula => exact absurd rfl (hb formula)
  | text text =>
    simp only [load, h, readText]
    split
    · exact ⟨nofun, nofun⟩
    · cases options.textFallback with
      | error => exact ⟨nofun, by rintro _ ⟨⟩; exact ⟨_, _, rfl⟩⟩
      | zero => exact ⟨by simp [Run.mem_events_bind], nofun⟩
  | _ =>
    simp only [load, h]
    exact ⟨nofun, nofun⟩

end

end Evaluation

namespace Formula

/-- Evaluates a formula in layers of bindings. A strict evaluation begins only if no name is
missing. -/
def evaluate (formula : Formula) (layers : List Context) (options : Options) : Run Value := do
  Run.report (.entered formula.text)
  let scope := Scope.ofLayers layers
  let unknowns := if options.strict then scope.unknowns formula else []
  if unknowns ≠ [] then Run.fail (.unresolvedIdentifiers unknowns)
  else Evaluation.within scope options options.maxDepth [] formula

theorem result_evaluate_eq (formula : Formula) (layers : List Context) (options : Options) :
    (formula.evaluate layers options).result =
      if options.strict = true ∧ (Scope.ofLayers layers).unknowns formula ≠ [] then
        .error (.unresolvedIdentifiers ((Scope.ofLayers layers).unknowns formula))
      else (Evaluation.within (.ofLayers layers) options options.maxDepth [] formula).result := by
  simp only [evaluate, Run.result_bind, Run.result_report]
  cases options.strict with
  | false => rfl
  | true =>
    by_cases hm : (Scope.ofLayers layers).unknowns formula = [] <;> simp [hm, bind, Except.bind]

theorem result_evaluate (formula : Formula) (layers : List Context) (options : Options) :
    (∃ names, (formula.evaluate layers options).result = .error (.unresolvedIdentifiers names)) ∨
      (formula.evaluate layers options).result =
        (Evaluation.within (.ofLayers layers) options options.maxDepth [] formula).result := by
  rw [result_evaluate_eq]
  split
  · exact .inl ⟨_, rfl⟩
  · exact .inr rfl

theorem evaluate_eq {formula : Formula} {layers : List Context} {options : Options}
    (h : options.strict = true → (Scope.ofLayers layers).unknowns formula = []) :
    let run := Evaluation.within (.ofLayers layers) options options.maxDepth [] formula
    formula.evaluate layers options = ⟨.entered formula.text :: run.events, run.result⟩ := by
  have hm : (if options.strict then (Scope.ofLayers layers).unknowns formula else []) = [] := by
    split
    · exact h ‹_›
    · rfl
  simp only [evaluate, hm, ne_eq, not_true_eq_false, if_false]
  rfl

def unknowns (formula : Formula) (layers : List Context) : List String :=
  (Scope.ofLayers layers).unknowns formula

def isValid (formula : Formula) (layers : List Context) : Bool :=
  (formula.unknowns layers).isEmpty

end Formula

namespace Expression

def compileEvents (expression : Expression) : List Event :=
  if Text.isAllBlank expression.text.toList then []
  else [.compiled expression.text expression.program.length]

end Expression

end VectorFormula
