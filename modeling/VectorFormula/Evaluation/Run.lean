import VectorFormula.Instruction
/-!
Runs: what a computation reports on its way, and how it ends. What was reported before an error
stays reported.
-/
namespace VectorFormula

inductive Event where
  | compiled (source : String) (instructions : Nat)
  | entered (expression : String)
  | dispatched (instruction : Instruction) (depth : Nat)
  | readAsZero (path : Path)
  | nested (path : Path) (expression : String)
  | substituted (path : Path) (text : String)

inductive Level where
  | warning | debug | trace
  deriving DecidableEq, Repr

def Event.level : Event → Level
  | substituted .. => .warning
  | dispatched .. => .trace
  | _ => .debug

structure Run (α : Type) where
  events : List Event
  result : Except RuntimeError α

namespace Run

variable {α β : Type}

def report (event : Event) : Run Unit := ⟨[event], .ok ()⟩

def fail (error : RuntimeError) : Run α := ⟨[], .error error⟩

def ofExcept (result : Except RuntimeError α) : Run α := ⟨[], result⟩

instance : Monad Run where
  pure value := ⟨[], .ok value⟩
  bind run next :=
    match run.result with
    | .ok value =>
      let rest := next value
      ⟨run.events ++ rest.events, rest.result⟩
    | .error error => ⟨run.events, .error error⟩

variable {run : Run α} {next : α → Run β}

@[simp] theorem result_pure (value : α) : (pure value : Run α).result = .ok value := rfl

@[simp] theorem result_fail (error : RuntimeError) :
    (fail error : Run α).result = .error error := rfl

@[simp] theorem result_ofExcept (result : Except RuntimeError α) :
    (ofExcept result).result = result := rfl

@[simp] theorem result_report (event : Event) : (report event).result = .ok () := rfl

@[simp] theorem events_pure (value : α) : (pure value : Run α).events = [] := rfl

@[simp] theorem events_fail (error : RuntimeError) : (fail error : Run α).events = [] := rfl

@[simp] theorem events_ofExcept (result : Except RuntimeError α) :
    (ofExcept result).events = [] := rfl

@[simp] theorem events_report (event : Event) : (report event).events = [event] := rfl

theorem bind_of_ok {value : α} (h : run.result = .ok value) :
    run >>= next = ⟨run.events ++ (next value).events, (next value).result⟩ := by
  simp only [bind, h]

theorem bind_of_error {error : RuntimeError} (h : run.result = .error error) :
    run >>= next = ⟨run.events, .error error⟩ := by
  simp only [bind, h]

@[simp] theorem result_bind : (run >>= next).result = run.result >>= fun value => (next value).result := by
  simp only [bind, Except.bind]
  cases run.result <;> rfl

theorem mem_events_bind {event : Event} :
    event ∈ (run >>= next).events ↔
      event ∈ run.events ∨ ∃ value, run.result = .ok value ∧ event ∈ (next value).events := by
  cases h : run.result with
  | ok value => simp [bind_of_ok h]
  | error error => simp [bind_of_error h]

end Run

end VectorFormula
