import VectorFormula.Evaluation.Run
import VectorFormula.Value.Position
/-!
The stack machine. Every instruction takes its operands from the stack and leaves one value; a
program is to leave a single value. How dotted names are read is a parameter.
-/
namespace VectorFormula

abbrev Stack := List Value

namespace Stack

/-- Takes the operands of an instruction off a stack, in the order in which they were put there. -/
def take (stack : Stack) (count : Nat) (instruction : Instruction) :
    Except RuntimeError (List Value × Stack) :=
  if stack.length < count then .error (.stackUnderflow instruction.text)
  else .ok ((List.take count stack).reverse, List.drop count stack)

end Stack

def Instruction.apply (load : Path → Run Value) : Instruction → List Value → Run Value
  | .push value, _ => pure value
  | .load path, _ => load path
  | .call _ function _, operands => Run.ofExcept (function.call operands)
  | .vector _, items => pure (Value.concat items)
  | .index _, target :: indices => Run.ofExcept (target.pick indices)
  | .indexRange, [target, start, stop] => Run.ofExcept (target.slice start stop)
  | instruction, _ => Run.fail (.stackUnderflow instruction.text)

namespace Program

def execute (load : Path → Run Value) : Program → Stack → Run Stack
  | [], stack => pure stack
  | instruction :: rest, stack => do
    Run.report (.dispatched instruction stack.length)
    let (operands, below) ← Run.ofExcept (stack.take instruction.pops instruction)
    let value ← instruction.apply load operands
    execute load rest (value :: below)

/-- The value of a program: the only one that it leaves on an empty stack. -/
def run (load : Path → Run Value) (program : Program) : Run Value := do
  match ← program.execute load [] with
  | [value] => return value
  | stack => Run.fail (.invalidStackSize stack.length)

variable {load : Path → Run Value}

@[simp] theorem execute_nil (stack : Stack) : (execute load [] stack).result = .ok stack := rfl

theorem execute_cons (instruction : Instruction) (rest : Program) (stack : Stack) :
    (execute load (instruction :: rest) stack).result = (do
      let (operands, below) ← stack.take instruction.pops instruction
      let value ← (instruction.apply load operands).result
      (execute load rest (value :: below)).result) := by
  simp only [execute, Run.result_bind, Run.result_report, Run.result_ofExcept]
  rfl

theorem execute_append (before after : Program) (stack : Stack) :
    (execute load (before ++ after) stack).result = (do
      let reached ← (execute load before stack).result
      (execute load after reached).result) := by
  induction before generalizing stack with
  | nil => rfl
  | cons instruction rest ih =>
    simp only [List.cons_append, execute_cons, ih, bind_assoc]

end Program

end VectorFormula
