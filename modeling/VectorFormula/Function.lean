import VectorFormula.Value
import VectorFormula.Error
/-!
Functions on values. A function takes a fixed number of operands, or any number.
-/
namespace VectorFormula

inductive Arity where
  | exact (count : Nat)
  | variadic
  deriving DecidableEq, Repr

def Arity.accepts : Arity → Nat → Bool
  | exact count, n => n == count
  | variadic, _ => true

inductive Function where
  | unary (f : Value → Value)
  | binary (f : Value → Value → Value)
  | ternary (f : Value → Value → Value → Value)
  | variadic (f : List Value → Value)

namespace Function

def arity : Function → Arity
  | unary _ => .exact 1
  | binary _ => .exact 2
  | ternary _ => .exact 3
  | variadic _ => .variadic

def call : Function → List Value → Except RuntimeError Value
  | unary f, [a] => .ok (f a)
  | binary f, [a, b] => .ok (f a b)
  | ternary f, [a, b, c] => .ok (f a b c)
  | variadic f, operands => .ok (f operands)
  | unary _, operands => .error (.argumentCountMismatch 1 operands.length)
  | binary _, operands => .error (.argumentCountMismatch 2 operands.length)
  | ternary _, operands => .error (.argumentCountMismatch 3 operands.length)

/-- A function as text: nothing but its operand count, a star for any. -/
def text (function : Function) : String :=
  match function.arity with
  | .exact count => s!"Function/{count}"
  | .variadic => "Function/*"

end Function

end VectorFormula
