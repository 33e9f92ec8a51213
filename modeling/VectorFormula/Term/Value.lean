import VectorFormula.Term
import VectorFormula.Evaluation
/-!
The values of terms, by recursion on the term. How names are read is a parameter; `reads` gives the
names of a scope their values when every formula in it is a term.
-/
namespace VectorFormula

/-- What a function makes of operand values. One of a fixed number of operands takes as many values,
in their order, and no other number of them. -/
def Function.applied (function : Function) (values : List Value) : Except RuntimeError Value :=
  match function with
  | .unary f =>
    match values with
    | [a] => .ok (f a)
    | _ => .error (.argumentCountMismatch 1 values.length)
  | .binary f =>
    match values with
    | [a, b] => .ok (f a b)
    | _ => .error (.argumentCountMismatch 2 values.length)
  | .ternary f =>
    match values with
    | [a, b, c] => .ok (f a b c)
    | _ => .error (.argumentCountMismatch 3 values.length)
  | .variadic f => .ok (f values)

namespace Term

mutual

/-- The value of a term, its operands taken from left to right. All operands of a choice are
evaluated. Indexing with a single item that makes a sequence is a slice between the bounds. -/
def evaluate (read : Path → Except RuntimeError Value) : Term → Except RuntimeError Value
  | number value => .ok (.scalar value)
  | named path => read path
  | group inner => inner.evaluate read
  | apply _ function operands => do
    let values ← evaluateAll read operands
    function.applied values
  | vector items => do
    let values ← evaluateAll read items
    return ⟨values.flatMap Value.elements⟩
  | unary _ function operand => do
    let value ← operand.evaluate read
    function.applied [value]
  | binary _ function left right => do
    let a ← left.evaluate read
    let b ← right.evaluate read
    function.applied [a, b]
  | conditional function condition yes no => do
    let c ← condition.evaluate read
    let a ← yes.evaluate read
    let b ← no.evaluate read
    function.applied [c, a, b]
  | index target items => do
    let value ← target.evaluate read
    match listSpan? read items with
    | some span => do
      let (start, stop) ← span
      value.slice start stop
    | none => do
      let indices ← evaluateAll read items
      value.pick indices

def evaluateAll (read : Path → Except RuntimeError Value) :
    List Term → Except RuntimeError (List Value)
  | [] => .ok []
  | term :: rest => do
    let value ← term.evaluate read
    let values ← evaluateAll read rest
    return value :: values

/-- The values of the bounds, where a list is a single item that makes a sequence. -/
def listSpan? (read : Path → Except RuntimeError Value) :
    List Term → Option (Except RuntimeError (Value × Value))
  | [item] => item.span? read
  | _ => none

def span? (read : Path → Except RuntimeError Value) :
    Term → Option (Except RuntimeError (Value × Value))
  | group inner => inner.span? read
  | binary .range _ start stop => some do
    let a ← start.evaluate read
    let b ← stop.evaluate read
    return (a, b)
  | apply path _ [start, stop] =>
    if path.text = Operator.range.symbol then some do
      let a ← start.evaluate read
      let b ← stop.evaluate read
      return (a, b)
    else none
  | _ => none

end

/-- The value of a name by what it leads to, given the formulas that are being evaluated and the values
of others. A name that leads nowhere is zero. -/
def valueOf (options : Options) (chain : List Nat) (enter : Formula → Except RuntimeError Value)
    (path : Path) : Option Binding → Except RuntimeError Value
  | none => .ok (.scalar 0.0)
  | some (.number x) => .ok (.scalar x)
  | some (.truth b) => .ok (.scalar (if b then 1.0 else 0.0))
  | some (.value v) | some (.item v _) => .ok v
  | some (.text text) =>
    match Decimal.read? (Text.trim text.toList), options.textFallback with
    | some x, _ => .ok (.scalar x)
    | none, .zero => .ok (.scalar 0.0)
    | none, .error => .error (.typeConversion path.text text)
  | some (.formula formula) =>
    if formula.id ∈ chain then .error (.cyclicReference path.text) else enter formula

/-- The values of names in a scope whose formulas are given as terms: a formula is evaluated with its
names read in the same way, within the limit on the nesting. -/
def reads (scope : Scope) (options : Options) (tree : Formula → Term) :
    Nat → List Nat → Path → Except RuntimeError Value
  | 0, chain, path =>
    valueOf options chain (fun _ => .error (.recursionLimit options.maxDepth)) path
      (scope.resolve path)
  | depth + 1, chain, path =>
    valueOf options chain
      (fun formula => (tree formula).evaluate (reads scope options tree depth (formula.id :: chain)))
      path (scope.resolve path)

end Term

end VectorFormula
