import VectorFormula.Value
import VectorFormula.Number.Rounding
/-!
Arithmetic on values. Sums and products let the longer operand give the elements; all other
operations go by the first one. Partial results are added up.
-/
namespace VectorFormula.Function

open Value

/-- The sum of two numbers, which is also how partial results are reduced. -/
def add (x y : Float) : Float := x + y

def plus : Value → Value → Value := foldLonger add add

def minus : Value → Value → Value := fold add fun x y => x - y

def multiply : Value → Value → Value := foldLonger add fun x y => x * y

def divide : Value → Value → Value := fold add fun x y => x / y

def modulo : Value → Value → Value := fold add Number.remainder

def pow : Value → Value → Value := fold add Float.pow

def atan2 : Value → Value → Value := fold add Float.atan2

/-- The most elements that a sequence may have, `2 ^ 20`. -/
def maxSequence : Nat := 1048576

def upTo (low high : Int) : List Int :=
  (List.range (high - low + 1).toNat).map fun k : Nat => low + (k : Int)

/-- The whole numbers from one to another, upwards or downwards. There are none if one of the two is
beyond the limit of exact whole numbers, or if they would be too many. -/
def sequence (start stop : Int) : Value :=
  if (Number.ofSafe? start).isNone || (Number.ofSafe? stop).isNone ||
      maxSequence ≤ (stop - start).natAbs then empty
  else if start ≤ stop then ⟨(upTo start stop).filterMap Number.ofSafe?⟩
  else ⟨(upTo stop start).reverse.filterMap Number.ofSafe?⟩

/-- The sequence between the whole parts of two first elements, if both are finite. -/
def range (a b : Value) : Value :=
  match a.first?, b.first? with
  | some first, some last =>
    if first.isFinite && last.isFinite then
      sequence (Number.clamp64 first) (Number.clamp64 last)
    else empty
  | _, _ => empty

def unaryPlus (v : Value) : Value := v

def unaryMinus : Value → Value := map fun x => -x

/-- The bitwise complement of every element, taken as a 64-bit whole number. -/
def complement : Value → Value := map fun x => Number.ofInt (-(Number.clamp64 x) - 1)

end VectorFormula.Function
