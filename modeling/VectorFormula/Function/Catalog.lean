import VectorFormula.Function
import VectorFormula.Function.Arithmetic
import VectorFormula.Function.Logic
import VectorFormula.Function.Aggregate
/-!
The catalog of functions that every formula may use, the operators' functions among them.
-/
namespace VectorFormula.Function

def signOf (x : Float) : Float :=
  if 0.0 < x then 1.0 else if x < 0.0 then -1.0 else 0.0

def elementwise (f : Float → Float) : Function :=
  .unary (Value.map f)

def catalog : List (String × Function) := [
  ("plus", .binary plus),
  ("minus", .binary minus),
  ("multiply", .binary multiply),
  ("divide", .binary divide),
  ("modulo", .binary modulo),
  ("range", .binary range),
  ("pow", .binary pow),
  ("atan2", .binary atan2),
  ("equal", .binary equal),
  ("greater", .binary greater),
  ("less", .binary less),
  ("greaterorequal", .binary greaterOrEqual),
  ("lessorequal", .binary lessOrEqual),
  ("and", .binary and),
  ("or", .binary or),
  ("ternary", .ternary choose),
  ("negate", .unary negate),
  ("complement", .unary complement),
  ("unaryplus", .unary unaryPlus),
  ("unaryminus", .unary unaryMinus),
  ("sqrt", elementwise Float.sqrt),
  ("exp", elementwise Float.exp),
  ("ln", elementwise Float.log),
  ("log10", elementwise Float.log10),
  ("sin", elementwise Float.sin),
  ("cos", elementwise Float.cos),
  ("tan", elementwise Float.tan),
  ("asin", elementwise Float.asin),
  ("acos", elementwise Float.acos),
  ("atan", elementwise Float.atan),
  ("sinh", elementwise Float.sinh),
  ("cosh", elementwise Float.cosh),
  ("tanh", elementwise Float.tanh),
  ("abs", elementwise Float.abs),
  ("round", elementwise Number.roundEven),
  ("ceil", elementwise Number.ceiling),
  ("floor", elementwise Number.floor),
  ("sign", elementwise signOf),
  ("min", .variadic min),
  ("max", .variadic max),
  ("sum", .variadic sum),
  ("product", .variadic product)]

end VectorFormula.Function
