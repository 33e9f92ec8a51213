import VectorFormula.Value
/-!
Functions over all elements of all operands. Without any element the result is zero.
-/
namespace VectorFormula.Function

open Value

def gather (f : Float → Float → Float) (operands : List Value) : Value :=
  scalar (reduce f (concat operands).elements)

/-- The smaller of two numbers; an undefined one gives way to the other. -/
def lesser (x y : Float) : Float :=
  if x.isNaN then y else if y < x then y else x

def larger (x y : Float) : Float :=
  if x.isNaN then y else if x < y then y else x

def min : List Value → Value := gather lesser

def max : List Value → Value := gather larger

def sum : List Value → Value := gather fun x y => x + y

def product : List Value → Value := gather fun x y => x * y

end VectorFormula.Function
