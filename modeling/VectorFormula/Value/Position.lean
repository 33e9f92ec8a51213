import VectorFormula.Value
import VectorFormula.Number.Rounding
import VectorFormula.Error
/-!
Positions in a value. A number addresses an element by its whole part, from zero; a negative one
counts back from the end.
-/
namespace VectorFormula.Value

/-- The whole part of a number that is to address an element. It has to be finite and within the
limit up to which whole numbers are exact. -/
def wholePart (x : Float) : Except RuntimeError Int :=
  match Number.truncate? x with
  | some i =>
    if Number.isSafe i then .ok i else .error (.invalidIndex x)
  | none => .error (.invalidIndex x)

/-- The largest size in which positions are found: a size has to be a signed number of 64 bits, so
that counting back from the end stays within such numbers. -/
def sizeLimit : Nat := 0x7FFFFFFFFFFFFFFF

/-- Where an index points to, from zero: a negative one counts back from the end. -/
def offset (index : Int) (size : Nat) : Int :=
  if index < 0 then size + index else index

/-- The position that an index addresses among `size` elements. A size above the limit has none. -/
def position (index : Int) (size : Nat) : Except RuntimeError Nat :=
  if size ≤ sizeLimit ∧ 0 ≤ offset index size ∧ offset index size < size then
    .ok (offset index size).toNat
  else .error (.indexOutOfBounds index size)

def address (x : Float) (size : Nat) : Except RuntimeError Nat := do
  position (← wholePart x) size

/-- The elements at all numbers of the indices, in order. A value without elements gives none,
whatever the indices are. -/
def pick (target : Value) (indices : List Value) : Except RuntimeError Value := do
  if target.isEmpty then return empty
  let cells := target.elements.toArray
  let elements ← (concat indices).elements.mapM fun x => do
    let i ← address x cells.size
    return cells.getD i 0.0
  return ⟨elements⟩

/-- The elements from one position to another, both included, backwards if the first lies behind the
second. The first elements of the bounds count; where an operand has no elements, neither has the
slice. -/
def slice (target start stop : Value) : Except RuntimeError Value :=
  match start.first?, stop.first? with
  | some a, some b => do
    if target.isEmpty then return empty
    let i ← address a target.size
    let j ← address b target.size
    if i ≤ j then return ⟨(target.elements.take (j + 1)).drop i⟩
    else return ⟨((target.elements.take (i + 1)).drop j).reverse⟩
  | _, _ => return empty

end VectorFormula.Value
