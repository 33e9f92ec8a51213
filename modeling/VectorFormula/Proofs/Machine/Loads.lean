import VectorFormula.Evaluation
import VectorFormula.Proofs.Machine.Refinement
import VectorFormula.Proofs.Value.Addressing
/-!
What a run of a program takes from the reading of its names. It fails by an operation of its own
or as one of the readings does.
-/
namespace VectorFormula

/-- Whether an error comes from an operation of the machine: a function, an address or the stack. -/
def RuntimeError.isOperation : RuntimeError → Bool
  | argumentCountMismatch _ _ | stackUnderflow _ | invalidStackSize _ => true
  | error => error.isAddressing

theorem RuntimeError.isOperation_of_isAddressing {error : RuntimeError}
    (h : error.isAddressing = true) : error.isOperation = true := by
  cases error <;> first | rfl | cases h

theorem Function.call_error {function : Function} {operands : List Value} {error : RuntimeError}
    (h : function.call operands = .error error) : error.isOperation = true := by
  unfold call at h
  split at h <;> cases h <;> rfl

theorem Stack.take_error {stack : Stack} {count : Nat} {instruction : Instruction}
    {error : RuntimeError} (h : stack.take count instruction = .error error) :
    error.isOperation = true := by
  unfold Stack.take at h
  split at h <;> cases h
  rfl

theorem Instruction.apply_cases (load : Path → Run Value) (instruction : Instruction)
    (operands : List Value) :
    (∃ path, instruction = .load path ∧ instruction.apply load operands = load path) ∨
      (instruction.apply load operands).events = [] ∧
        ∀ error, (instruction.apply load operands).result = .error error →
          error.isOperation = true := by
  cases instruction with
  | push value => exact .inr ⟨rfl, nofun⟩
  | load path => exact .inl ⟨path, rfl, rfl⟩
  | call name function arity => exact .inr ⟨rfl, fun _ h => Function.call_error h⟩
  | vector count => exact .inr ⟨rfl, nofun⟩
  | index count =>
    match operands with
    | [] => exact .inr ⟨rfl, by rintro _ ⟨⟩; rfl⟩
    | target :: indices =>
      exact .inr ⟨rfl, fun _ h => RuntimeError.isOperation_of_isAddressing (Value.pick_error h)⟩
  | indexRange =>
    match operands with
    | [target, start, stop] =>
      exact .inr ⟨rfl, fun _ h => RuntimeError.isOperation_of_isAddressing (Value.slice_error h)⟩
    | [] | [_] | [_, _] | _ :: _ :: _ :: _ :: _ => exact .inr ⟨rfl, by rintro _ ⟨⟩; rfl⟩

namespace Program

variable {load : Path → Run Value} {program : Program} {stack reached : Stack}

theorem mem_events_execute {event : Event} (h : event ∈ (execute load program stack).events) :
    (∃ instruction depth, event = .dispatched instruction depth) ∨
      ∃ path ∈ program.paths, event ∈ (load path).events := by
  induction program generalizing stack with
  | nil => cases h
  | cons instruction rest ih =>
    simp only [execute, Run.mem_events_bind, Run.events_report, List.mem_singleton,
      Run.events_ofExcept, List.not_mem_nil, false_or] at h
    rcases h with rfl | ⟨-, -, taken, -, h | ⟨value, -, h⟩⟩
    · exact .inl ⟨instruction, stack.length, rfl⟩
    · rcases instruction.apply_cases load taken.1 with ⟨path, rfl, ha⟩ | ⟨he, -⟩
      · exact .inr ⟨path, by simp, ha ▸ h⟩
      · rw [he] at h
        cases h
    · refine (ih h).imp_right ?_
      rintro ⟨path, hp, he⟩
      exact ⟨path, by simpa using Or.inr (mem_paths.mp hp), he⟩

theorem execute_error {error : RuntimeError} (h : (execute load program stack).result = .error error)
    (ho : error.isOperation = false) : ∃ path ∈ program.paths, (load path).result = .error error := by
  induction program generalizing stack with
  | nil => cases h
  | cons instruction rest ih =>
    rw [execute_cons] at h
    rcases bind_eq_error.mp h with h | ⟨taken, -, h⟩
    · exact absurd (Stack.take_error h) (by simp [ho])
    rcases bind_eq_error.mp h with h | ⟨value, -, h⟩
    · rcases instruction.apply_cases load taken.1 with ⟨path, rfl, ha⟩ | ⟨-, he⟩
      · exact ⟨path, by simp, ha ▸ h⟩
      · exact absurd (he error h) (by simp [ho])
    · obtain ⟨path, hp, he⟩ := ih h
      exact ⟨path, by simpa using Or.inr (mem_paths.mp hp), he⟩

theorem execute_reads (h : (execute load program stack).result = .ok reached) {path : Path}
    (hp : path ∈ program.paths) :
    (∃ value, (load path).result = .ok value) ∧
      ∀ event ∈ (load path).events, event ∈ (execute load program stack).events := by
  induction program generalizing stack with
  | nil => simp at hp
  | cons instruction rest ih =>
    rw [execute_cons] at h
    obtain ⟨taken, ht, h⟩ := bind_eq_ok.mp h
    obtain ⟨value, hv, h⟩ := bind_eq_ok.mp h
    simp only [execute, Run.mem_events_bind, Run.result_report, Run.result_ofExcept, ht,
      Except.ok.injEq, exists_eq_left']
    rcases List.mem_cons.mp (mem_paths.mp hp) with rfl | hp
    · exact ⟨⟨value, hv⟩, fun event he => .inr ⟨(), trivial, .inr (.inl he)⟩⟩
    · obtain ⟨hr, he⟩ := ih h (mem_paths.mpr hp)
      exact ⟨hr, fun event hm => .inr ⟨(), trivial, .inr (.inr ⟨value, hv, he event hm⟩)⟩⟩

theorem mem_events_run {event : Event} (h : event ∈ (program.run load).events) :
    (∃ instruction depth, event = .dispatched instruction depth) ∨
      ∃ path ∈ program.paths, event ∈ (load path).events := by
  rcases Run.mem_events_bind.mp h with h | ⟨reached, -, h⟩
  · exact mem_events_execute h
  · split at h <;> cases h

theorem run_error {error : RuntimeError} (h : (program.run load).result = .error error)
    (ho : error.isOperation = false) : ∃ path ∈ program.paths, (load path).result = .error error := by
  rw [Program.run, Run.result_bind] at h
  rcases bind_eq_error.mp h with h | ⟨reached, -, h⟩
  · exact execute_error h ho
  · split at h <;> cases h
    cases ho

theorem run_reads {value : Value} (h : (program.run load).result = .ok value) {path : Path}
    (hp : path ∈ program.paths) :
    (∃ value, (load path).result = .ok value) ∧
      ∀ event ∈ (load path).events, event ∈ (program.run load).events := by
  rw [Program.run, Run.result_bind] at h
  obtain ⟨reached, hr, -⟩ := bind_eq_ok.mp h
  obtain ⟨hv, he⟩ := execute_reads hr hp
  exact ⟨hv, fun event hm => Run.mem_events_bind.mpr (.inl (he event hm))⟩

end Program

end VectorFormula
