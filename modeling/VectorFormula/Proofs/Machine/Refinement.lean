import VectorFormula.Proofs.Machine.Persistence
import VectorFormula.Term.Value
/-!
The machine refines the recursive value of terms. `Puts` is the invariant of a segment of a program:
on any stack and before any other program it comes to putting the given values there.
-/
namespace VectorFormula

namespace Stack

theorem take_reverse_append (values : List Value) (stack : Stack) (instruction : Instruction) :
    Stack.take (values.reverse ++ stack) values.length instruction = .ok (values, stack) := by
  have h : values.reverse.length = values.length := List.length_reverse
  simp [Stack.take, ← h, -List.length_reverse]

end Stack

namespace Program

variable {load : Path → Run Value}

/-- Whether a program puts so many values on any stack, or fails as they do. -/
structure Puts (load : Path → Run Value) (program : Program) (count : Nat)
    (values : Except RuntimeError (List Value)) : Prop where
  length : ∀ found, values = .ok found → found.length = count
  result : ∀ stack, (execute load program stack).result = values.map (·.reverse ++ stack)

def Pushes (load : Path → Run Value) (program : Program) (value : Except RuntimeError Value) :
    Prop :=
  ∀ stack, (execute load program stack).result = value.map (· :: stack)

variable {program other : Program} {count : Nat}
  {values : Except RuntimeError (List Value)} {value : Except RuntimeError Value}

theorem Puts.nil : Puts load [] 0 (pure []) :=
  ⟨fun _ h => by cases h; rfl, fun _ => rfl⟩

theorem Puts.cons (h : Pushes load program value) (ho : Puts load other count values) :
    Puts load (program ++ other) (count + 1) (do
      let first ← value
      let rest ← values
      return first :: rest) := by
  constructor
  · intro found hf
    obtain ⟨first, -, hf⟩ := bind_eq_ok.mp hf
    obtain ⟨rest, hr, hf⟩ := bind_eq_ok.mp hf
    cases hf
    rw [List.length_cons, ho.length _ hr]
  · intro stack
    rw [execute_append, h]
    cases value with
    | error error => rfl
    | ok first =>
      simp only [Except.map, bind, Except.bind, ho.result]
      cases values with
      | error error => rfl
      | ok rest => simp [pure, Except.pure]

theorem Puts.instruction (instruction : Instruction)
    (h : Puts load program instruction.pops values) :
    Pushes load (program ++ [instruction])
      (values >>= fun found => (instruction.apply load found).result) := by
  intro stack
  rw [execute_append, h.result]
  cases hv : values with
  | error error => rfl
  | ok found =>
    simp only [Except.map, bind, Except.bind, execute_cons, ← h.length found hv,
      Stack.take_reverse_append]
    cases (instruction.apply load found).result <;> rfl

theorem pushes_load (load : Path → Run Value) (path : Path) :
    Pushes load [.load path] (load path).result :=
  Puts.nil.instruction (.load path)

theorem Pushes.segment (h : Pushes load program value) (before after : Program) (stack : Stack) :
    (execute load (before ++ program ++ after) stack).result = (do
      let reached ← (execute load before stack).result
      let pushed ← value
      (execute load after (pushed :: reached)).result) := by
  simp only [execute_append, bind_assoc]
  apply bind_congr
  intro reached
  rw [h reached]
  cases value <;> rfl

theorem Pushes.run (h : Pushes load program value) : (program.run load).result = value := by
  simp only [Program.run, Run.result_bind, h []]
  cases value <;> rfl

end Program

namespace Term

open Program

variable {load : Path → Run Value}

abbrev results (load : Path → Run Value) (path : Path) : Except RuntimeError Value :=
  (load path).result

private theorem programs_puts {terms : List Term}
    (h : ∀ term ∈ terms, Pushes load term.program (term.evaluate (results load))) :
    Puts load (programs terms) terms.length (evaluateAll (results load) terms) := by
  induction terms with
  | nil => exact .nil
  | cons term rest ih =>
    obtain ⟨ht, hr⟩ := List.forall_mem_cons.mp h
    exact (ih hr).cons ht

private def PutsSpan (load : Path → Run Value) (bounds : Option Program)
    (span : Option (Except RuntimeError (Value × Value))) : Prop :=
  (bounds = none ∧ span = none) ∨ ∃ program values, bounds = some program ∧ span = some values ∧
    Puts load program 2 do
      let (start, stop) ← values
      return [start, stop]

private theorem putsSpan_pair {start stop : Term}
    (hs : Pushes load start.program (start.evaluate (results load)))
    (ht : Pushes load stop.program (stop.evaluate (results load))) :
    PutsSpan load (some (start.program ++ stop.program)) (some do
      let a ← start.evaluate (results load)
      let b ← stop.evaluate (results load)
      return (a, b)) := by
  refine .inr ⟨_, _, rfl, rfl, ?_⟩
  have h := (Puts.nil.cons ht).cons hs
  simpa using h

private theorem call_eq_applied (function : Function) (operands : List Value) :
    function.call operands = function.applied operands := by
  unfold Function.call Function.applied
  cases function <;> rcases operands with _ | ⟨_, _ | ⟨_, _ | ⟨_, _ | ⟨_, _⟩⟩⟩⟩ <;> rfl

private theorem apply_call (name : String) (function : Function) (arity : Nat)
    (operands : List Value) :
    (Instruction.apply load (.call name function arity) operands).result =
      function.applied operands := by
  rw [Instruction.apply, Run.result_ofExcept, call_eq_applied]

theorem program_pushes (load : Path → Run Value) (term : Term) :
    Pushes load term.program (term.evaluate (results load)) := by
  -- Indexing by an item that makes a sequence needs the bounds of the item, not its value.
  suffices h : Pushes load term.program (term.evaluate (results load)) ∧
      PutsSpan load term.bounds? (term.span? (results load)) from h.1
  induction term with
  | number value =>
    exact ⟨Puts.nil.instruction (.push (.scalar value)), .inl ⟨rfl, rfl⟩⟩
  | named path => exact ⟨Puts.nil.instruction (.load path), .inl ⟨rfl, rfl⟩⟩
  | group inner ih => exact ih
  | apply path function operands ih =>
    have hp := programs_puts fun operand h => (ih operand h).1
    constructor
    · simpa [Term.program, evaluate, apply_call] using
        hp.instruction (.call path.text function operands.length)
    · match operands, ih with
      | [start, stop], ih =>
        simp only [bounds?, span?]
        split
        · exact putsSpan_pair (ih start (by simp)).1 (ih stop (by simp)).1
        · exact .inl ⟨rfl, rfl⟩
      | [], _ | [_], _ | _ :: _ :: _ :: _, _ => exact .inl ⟨rfl, rfl⟩
  | vector items ih =>
    have hp := programs_puts fun item h => (ih item h).1
    exact ⟨hp.instruction (.vector items.length), .inl ⟨rfl, rfl⟩⟩
  | unary operator function operand ih =>
    have hp := (Puts.nil.cons ih.1).instruction (.call operator.symbol function 1)
    refine ⟨?_, .inl ⟨rfl, rfl⟩⟩
    simpa [Term.program, evaluate, apply_call] using hp
  | binary operator function left right ihl ihr =>
    have hp := ((Puts.nil.cons ihr.1).cons ihl.1).instruction
      (.call operator.symbol function 2)
    constructor
    · simpa [Term.program, evaluate, apply_call] using hp
    · cases operator with
      | range => exact putsSpan_pair ihl.1 ihr.1
      | _ => exact .inl ⟨rfl, rfl⟩
  | conditional function condition yes no ihc ihy ihn =>
    have hp := (((Puts.nil.cons ihn.1).cons ihy.1).cons ihc.1).instruction
      (.call Operator.ternary.symbol function 3)
    refine ⟨?_, .inl ⟨rfl, rfl⟩⟩
    simpa [Term.program, evaluate, apply_call] using hp
  | index target items iht ihi =>
    refine ⟨?_, .inl ⟨rfl, rfl⟩⟩
    have hl : PutsSpan load (listBounds? items) (listSpan? (results load) items) := by
      match items, ihi with
      | [item], ihi => exact (ihi item (by simp)).2
      | [], _ | _ :: _ :: _, _ => exact .inl ⟨rfl, rfl⟩
    rcases hl with ⟨hb, hs⟩ | ⟨bounds, span, hb, hs, hp⟩
    · have hi := programs_puts fun item h => (ihi item h).1
      have hp := (hi.cons iht.1).instruction (.index items.length)
      simpa [Term.program, evaluate, hb, hs, Instruction.apply] using hp
    · have hp := (hp.cons iht.1).instruction .indexRange
      simpa [Term.program, evaluate, hb, hs, Instruction.apply] using hp

theorem result_load {scope : Scope} {options : Options} {chain : List Nat} {path : Path}
    {enter : Path → Formula → Run Value} {value : Formula → Except RuntimeError Value}
    (h : ∀ formula, scope.resolve path = some (.formula formula) →
      (enter path formula).result = value formula) :
    (Evaluation.load scope options chain enter path).result =
      valueOf options chain value path (scope.resolve path) := by
  cases hr : scope.resolve path with
  | none => rw [Evaluation.load_unresolved hr, valueOf]
  | some binding =>
    cases binding with
    | formula formula =>
      rw [Evaluation.load_formula hr, valueOf]
      split
      · rfl
      · exact h formula hr
    | text text =>
      simp only [Evaluation.load, hr, Evaluation.readText, valueOf]
      cases Decimal.read? (Text.trim text.toList) with
      | some x => rfl
      | none => cases options.textFallback <;> rfl
    | _ =>
      simp only [Evaluation.load, hr, valueOf]
      rfl

theorem results_reading {scope : Scope} {options : Options} {tree : Formula → Term}
    (h : ∀ formula ∈ scope.formulas, formula.program = (tree formula).program) (depth : Nat)
    (chain : List Nat) :
    results (Evaluation.reading scope options depth chain) =
      reads scope options tree depth chain := by
  induction depth generalizing chain with
  | zero => exact funext fun path => result_load fun _ _ => rfl
  | succ depth ih =>
    refine funext fun path => result_load fun formula hr => ?_
    rw [Evaluation.result_nested, ← ih, Evaluation.within,
      h formula (Scope.mem_formulas_of_resolve hr)]
    exact (program_pushes _ _).run

/-- The machine refines recursive evaluation, whatever the scope, the options and the formulas that
are being evaluated: the program of a term has the value of the term, and as a segment of another
program it puts that value on the stack it meets, or fails as the term does. Where the formulas of
the scope are programs of terms, they are evaluated by recursion too. -/
theorem run_refines_evaluate (scope : Scope) (options : Options) (depth : Nat) (chain : List Nat)
    (term : Term) :
    let load := Evaluation.reading scope options depth chain
    (term.program.run load).result = term.evaluate (results load) ∧
    (∀ (before after : Program) (stack : Stack),
      (execute load (before ++ term.program ++ after) stack).result = do
        let reached ← (execute load before stack).result
        let value ← term.evaluate (results load)
        (execute load after (value :: reached)).result) ∧
    ∀ tree : Formula → Term,
      (∀ formula ∈ scope.formulas, formula.program = (tree formula).program) →
      (term.program.run load).result = term.evaluate (reads scope options tree depth chain) := by
  intro load
  have hp : Pushes load term.program (term.evaluate (results load)) := program_pushes load term
  refine ⟨hp.run, hp.segment, ?_⟩
  intro tree h
  rw [hp.run, results_reading h]

/-- A sum with a call, an element and a slice in one vector. The first name is bound to a formula that
reads the second. -/
theorem run_bound_vector :
    (Program.run (Evaluation.reading ⟨[⟨[("x", .formula ⟨0, "[y]", [.load ["y"], .vector 1]⟩),
        ("y", .truth true), ("z", .value ⟨[3.0, 4.0, 5.0]⟩)]⟩]⟩ {} 1 [])
      [.load ["x"], .push (.scalar 0.0), .call "max" (.variadic Function.max) 2, .load ["y"],
        .call "+" (.binary Function.plus) 2, .load ["z"], .push (.scalar 1.0), .index 1, .load ["z"],
        .push (.scalar 2.0), .push (.scalar 1.0), .indexRange, .vector 3]).result =
      .ok ⟨[2.0, 4.0, 5.0, 4.0]⟩ := by
  let larger : Term := .apply ["max"] (.variadic Function.max) [.named ["x"], .number 0.0]
  let sum : Term := .binary .plus (.binary Function.plus) larger (.named ["y"])
  let element : Term := .index (.named ["z"]) [.number 1.0]
  let slice : Term := .index (.named ["z"])
    [.binary .range (.binary Function.range) (.number 2.0) (.number 1.0)]
  refine ((run_refines_evaluate _ _ _ _ (.vector [sum, element, slice])).2.2
    (fun _ => .vector [.named ["y"]]) ?_).trans ?_
  · simp [Scope.formulas, Binding.formulasOf, Binding.formulas, Formula.program, program, programs]
  · rfl

end Term

end VectorFormula
