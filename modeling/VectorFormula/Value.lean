import VectorFormula.Decimal.Numeral
/-!
Values: vectors of numbers. Operations on two values are folds: every element of one operand is
combined with all elements of the other, and the results are reduced to one element.
-/
namespace VectorFormula

structure Value where
  elements : List Float

namespace Value

def scalar (x : Float) : Value := ⟨[x]⟩

def empty : Value := ⟨[]⟩

def truth (b : Bool) : Float := if b then 1.0 else 0.0

def ofBool (b : Bool) : Value := scalar (truth b)

def size (v : Value) : Nat := v.elements.length

def isScalar (v : Value) : Bool := v.size == 1

def isEmpty (v : Value) : Bool := v.elements.isEmpty

def get? (v : Value) (i : Nat) : Option Float := v.elements[i]?

def first? (v : Value) : Option Float := v.elements.head?

def map (f : Float → Float) (v : Value) : Value := ⟨v.elements.map f⟩

def concat (values : List Value) : Value := ⟨values.flatMap elements⟩

/-- Equality of elements as numbers: zeros of both signs agree, and the undefined number differs
from itself. -/
protected def beq (a b : Value) : Bool := a.elements == b.elements

instance : BEq Value := ⟨Value.beq⟩

def isTrue (x : Float) : Bool := x != 0.0

def both (x y : Float) : Float := truth (isTrue x && isTrue y)

/-- Reduces numbers from the left, starting with the first one; no numbers give zero. -/
def reduce (f : Float → Float → Float) : List Float → Float
  | [] => 0.0
  | x :: rest => rest.foldl f x

/-- The fold of two values: one element for each of the first, combined with every element of the
second and reduced. -/
def fold (reducer combine : Float → Float → Float) (a b : Value) : Value :=
  ⟨a.elements.map fun x => reduce reducer (b.elements.map (combine x))⟩

theorem size_fold (reducer combine : Float → Float → Float) (a b : Value) :
    (fold reducer combine a b).size = a.size :=
  List.length_map _

theorem get?_fold (reducer combine : Float → Float → Float) (a b : Value) (i : Nat) :
    (fold reducer combine a b).get? i =
      (a.get? i).map fun x => reduce reducer (b.elements.map (combine x)) := by
  rw [get?, fold, List.getElem?_map, get?]

/-- The fold of two values in which the longer one, or the first of two equally long, gives the
elements. -/
def foldLonger (reducer combine : Float → Float → Float) (a b : Value) : Value :=
  if b.size ≤ a.size then fold reducer combine a b else fold reducer combine b a

/-- Whether a value counts as true: it has elements, and all of them count as true. -/
def isTruthy (v : Value) : Bool :=
  isTrue (reduce both v.elements)

/-- A value as text: a scalar as its number, any other value as a list in brackets. -/
def text (v : Value) : String :=
  match v.elements with
  | [x] => Decimal.numeral x
  | elements => "[" ++ ", ".intercalate (elements.map Decimal.numeral) ++ "]"

/-- A value as a structure with marked numbers. -/
def inspection (v : Value) : String :=
  let list := ", ".intercalate (v.elements.map Decimal.inspection)
  "Value \x7b elements: [" ++ list ++ "] \x7d"

end Value

end VectorFormula
