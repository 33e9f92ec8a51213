import VectorFormula.Value
/-!
Comparisons, logic and choice. Partial results are reduced by `both`, so that an element of the
first operand passes only if it passes against every element of the second.
-/
namespace VectorFormula.Function

open Value

/-- Where the elements of the first operand stand in a relation to all of the second. -/
def holdsForAll (relation : Float → Float → Bool) : Value → Value → Value :=
  fold both fun x y => truth (relation x y)

def equal : Value → Value → Value := holdsForAll fun x y => x == y

def greater : Value → Value → Value := holdsForAll fun x y => y < x

def less : Value → Value → Value := holdsForAll fun x y => x < y

def greaterOrEqual : Value → Value → Value := holdsForAll fun x y => y ≤ x

def lessOrEqual : Value → Value → Value := holdsForAll fun x y => x ≤ y

def and : Value → Value → Value := holdsForAll fun x y => isTrue x && isTrue y

def or : Value → Value → Value := holdsForAll fun x y => isTrue x || isTrue y

def negate : Value → Value := map fun x => truth (!isTrue x)

def choose (condition yes no : Value) : Value :=
  if condition.isTruthy then yes else no

end VectorFormula.Function
