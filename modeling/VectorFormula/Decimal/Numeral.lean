import VectorFormula.Decimal.Shortest
/-!
Doubles as text. `numeral` writes every finite double in positional notation, with the fewest
digits that read back.
-/
namespace VectorFormula.Decimal

def zeros (count : Nat) : List Char :=
  List.replicate count '0'

def positional (digits : Nat) (grid : Int) : List Char :=
  let text := Nat.toDigits 10 digits
  if 0 ≤ grid then text ++ zeros grid.toNat
  else
    let places := (-grid).toNat
    if places < text.length then
      text.take (text.length - places) ++ '.' :: text.drop (text.length - places)
    else '0' :: '.' :: zeros (places - text.length) ++ text

/-- The digits of `digits · 10 ^ grid` with a point after the first of them and an exponent. -/
def scientific (digits : Nat) (grid : Int) : List Char :=
  let text := Nat.toDigits 10 digits
  let power := grid + (text.length - 1 : Nat)
  let fraction := match text.drop 1 with
    | [] => []
    | rest => '.' :: rest
  text.take 1 ++ fraction ++ 'e' :: (toString power).toList

def signed (negative : Bool) (text : List Char) : String :=
  String.ofList (if negative then '-' :: text else text)

/-- A double as text, given how to write a positive decimal and zero. -/
def textBy (write : Nat → Int → List Char) (zero : List Char) (x : Float) : String :=
  match Number.view x with
  | .undefined => "NaN"
  | .infinite negative => signed negative ['i', 'n', 'f']
  | .finite negative 0 _ => signed negative zero
  | .finite negative significand exponent =>
    let (digits, grid) := shortest significand exponent
    signed negative (write digits grid)

/-- A double in positional notation, with the fewest digits that read back. -/
def numeral : Float → String :=
  textBy positional ['0']

/-- Whether `digits · 10 ^ grid` is below `10 ^ 16` and not below `10 ^ -4`. -/
def isModerate (digits : Nat) (grid : Int) : Bool :=
  let power := grid + (Nat.toDigits 10 digits).length
  decide (-4 < power ∧ power ≤ 16)

/-- A double with the mark of a fraction: a whole one keeps its point, and one that is at least
`10 ^ 16` or below `10 ^ -4` has an exponent. -/
def inspection : Float → String :=
  textBy (fun digits grid =>
    if isModerate digits grid then
      if 0 ≤ grid then positional digits grid ++ ['.', '0'] else positional digits grid
    else scientific digits grid) ['0', '.', '0']

end VectorFormula.Decimal
