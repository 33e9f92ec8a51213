import VectorFormula.Evaluation
/-!
Results that persist. Two ways of reading names are compared, which agree on the names of a
program except where the first one fails by an error that may pass; so do the runs of the program
(`Program.run_persists`), and the readings of a name in two evaluations (`load_persists`).
-/
namespace VectorFormula

/-- Whether a result persists in another one: both are the same, unless it is an error that may
pass. -/
def Persists {α : Type} (passing : RuntimeError → Bool) (result other : Except RuntimeError α) :
    Prop :=
  (∃ error, result = .error error ∧ passing error = true) ∨ other = result

variable {passing : RuntimeError → Bool}

section

variable {α β : Type} {result other : Except RuntimeError α}
  {next onward : α → Except RuntimeError β}

theorem Persists.refl (passing : RuntimeError → Bool) (result : Except RuntimeError α) :
    Persists passing result result :=
  .inr rfl

theorem Persists.bind (h : Persists passing result other)
    (hn : ∀ value, result = .ok value → Persists passing (next value) (onward value)) :
    Persists passing (result >>= next) (other >>= onward) := by
  rcases h with ⟨error, rfl, he⟩ | rfl
  · exact .inl ⟨error, rfl, he⟩
  · cases hr : other with
    | error error => exact .refl _ _
    | ok value => exact hn value hr

theorem persists_iff_eq : Persists (fun _ => false) result other ↔ other = result := by
  simp [Persists]

end

namespace Program

variable {load other : Path → Run Value}

private theorem apply_persists {instruction : Instruction}
    (h : ∀ path, instruction = .load path →
      Persists passing (load path).result (other path).result) (operands : List Value) :
    Persists passing (instruction.apply load operands).result
      (instruction.apply other operands).result := by
  cases instruction with
  | load path => exact h path rfl
  | index count => cases operands <;> exact .refl _ _
  | indexRange =>
    match operands with
    | [_, _, _] | [] | [_] | [_, _] | _ :: _ :: _ :: _ :: _ => exact .refl _ _
  | _ => exact .refl _ _

theorem execute_persists {program : Program}
    (h : ∀ path ∈ program.paths, Persists passing (load path).result (other path).result)
    (stack : Stack) :
    Persists passing (execute load program stack).result (execute other program stack).result := by
  induction program generalizing stack with
  | nil => exact .refl _ _
  | cons instruction rest ih =>
    have hfirst (path : Path) (hi : instruction = .load path) :
        Persists passing (load path).result (other path).result := h path (by simp [hi])
    have hrest (path : Path) (hp : path ∈ Program.paths rest) :
        Persists passing (load path).result (other path).result :=
      h path (by simpa using Or.inr (mem_paths.mp hp))
    simp only [execute_cons]
    apply (Persists.refl _ _).bind
    intro taken _
    apply (apply_persists hfirst taken.1).bind
    intro value _
    exact ih hrest (value :: taken.2)

theorem run_persists {program : Program}
    (h : ∀ path ∈ program.paths, Persists passing (load path).result (other path).result) :
    Persists passing (program.run load).result (program.run other).result := by
  simp only [Program.run, Run.result_bind]
  exact (execute_persists h []).bind fun _ _ => .refl _ _

theorem execute_congr {program : Program}
    (h : ∀ path ∈ program.paths, (other path).result = (load path).result) (stack : Stack) :
    (execute other program stack).result = (execute load program stack).result :=
  persists_iff_eq.mp (execute_persists (fun path hp => .inr (h path hp)) stack)

theorem run_congr {program : Program}
    (h : ∀ path ∈ program.paths, (other path).result = (load path).result) :
    (program.run other).result = (program.run load).result :=
  persists_iff_eq.mp (run_persists fun path hp => .inr (h path hp))

end Program

namespace Evaluation

variable {scope other : Scope} {options relaxed : Options} {chain trail : List Nat}
  {enter onward : Path → Formula → Run Value} {path : Path}

/-- A name that leads to the same in two scopes is read with a persistent result if texts are, and if
the formula that it leads to is either being evaluated both times or entered with a persistent
result. -/
theorem load_persists (hr : other.resolve path = scope.resolve path)
    (ht : ∀ text, Persists passing (readText options path text).result
      (readText relaxed path text).result)
    (hf : ∀ formula, scope.resolve path = some (.formula formula) →
      (formula.id ∈ trail ↔ formula.id ∈ chain) ∧
        (formula.id ∉ chain →
          Persists passing (enter path formula).result (onward path formula).result)) :
    Persists passing (load scope options chain enter path).result
      (load other relaxed trail onward path).result := by
  cases hs : scope.resolve path with
  | none =>
    rw [load_unresolved hs, load_unresolved (hr.trans hs)]
    exact .refl _ _
  | some binding =>
    cases binding with
    | formula formula =>
      rw [load_formula hs, load_formula (hr.trans hs)]
      obtain ⟨hiff, henter⟩ := hf formula hs
      by_cases hm : formula.id ∈ chain
      · rw [if_pos hm, if_pos (hiff.mpr hm)]
        exact .refl _ _
      · rw [if_neg hm, if_neg (mt hiff.mp hm)]
        exact henter hm
    | text text =>
      simp only [load, hr, hs]
      exact ht text
    | _ =>
      simp only [load, hr, hs]
      exact .refl _ _

theorem load_congr (hr : other.resolve path = scope.resolve path)
    (hf : ∀ formula, scope.resolve path = some (.formula formula) →
      (formula.id ∈ trail ↔ formula.id ∈ chain) ∧
        (formula.id ∉ chain → (onward path formula).result = (enter path formula).result)) :
    (load other options trail onward path).result = (load scope options chain enter path).result :=
  persists_iff_eq.mp (load_persists hr (fun _ => .refl _ _) fun formula h =>
    ⟨(hf formula h).1, fun hm => .inr ((hf formula h).2 hm)⟩)

theorem result_nested (depth : Nat) (formula : Formula) :
    (nested scope options (depth + 1) chain path formula).result =
      (within scope options depth chain formula).result := by
  rw [nested, Run.result_bind]
  rfl

theorem result_reading {formula : Formula} (h : scope.resolve path = some (.formula formula))
    (hn : formula.id ∉ chain) (depth : Nat) :
    (reading scope options (depth + 1) chain path).result =
      (within scope options depth chain formula).result := by
  rw [reading, load_formula h, if_neg hn, result_nested]

end Evaluation

end VectorFormula
