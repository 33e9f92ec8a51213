import VectorFormula.Function
/-!
Programs: instructions in postfix order. An instruction takes its operands from the top of a stack
and leaves one value there.
-/
namespace VectorFormula

abbrev Path := List String

def Path.text (path : Path) : String := ".".intercalate path

inductive Instruction where
  | push (value : Value)
  | load (path : Path)
  | call (name : String) (function : Function) (arity : Nat)
  | vector (count : Nat)
  | index (count : Nat)
  | indexRange

abbrev Program := List Instruction

namespace Instruction

def pops : Instruction → Nat
  | push _ | load _ => 0
  | call _ _ arity => arity
  | vector count => count
  | index count => count + 1
  | indexRange => 3

/-- Equality of instructions. Of the function of a call only its arity is compared. -/
protected def beq : Instruction → Instruction → Bool
  | push a, push b => a == b
  | load a, load b => a == b
  | call a f n, call b g m => a == b && n == m && f.arity = g.arity
  | vector n, vector m | index n, index m => n == m
  | indexRange, indexRange => true
  | _, _ => false

instance : BEq Instruction := ⟨Instruction.beq⟩

def text : Instruction → String
  | push value => s!"push {value.text}"
  | load path => s!"load {path.text}"
  | call name _ arity => s!"call {name}/{arity}"
  | vector count => s!"vector {count}"
  | index count => s!"index {count}"
  | indexRange => "index-range"

end Instruction

end VectorFormula
