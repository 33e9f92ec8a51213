import VectorFormula.Number.Binary
/-!
Numbers written as text. The double that is read is the one nearest to the decimal.
-/
namespace VectorFormula.Decimal

def digitsValue (digits : List Char) : Nat :=
  digits.foldl (fun value digit => 10 * value + (digit.toNat - 48)) 0

/-- The double nearest to `digits · 10 ^ power`. Beyond the powers that are tried the magnitude is
too large for a finite double, or too small for any but zero. -/
def ofDigits (negative : Bool) (digits : Nat) (power : Int) : Float :=
  if digits = 0 then Number.ofOrdinal negative 0
  else if 400 < power then Number.ofOrdinal negative Number.infiniteOrdinal
  else if power + digits.log2 < -400 then Number.ofOrdinal negative 0
  else Number.nearest negative (digits * Nat.pow 10 power.toNat) (Nat.pow 10 (-power).toNat)

/-- Splits an optional sign off, telling whether it is a minus. -/
def splitSign : List Char → Bool × List Char
  | '-' :: rest => (true, rest)
  | '+' :: rest => (false, rest)
  | text => (false, text)

theorem splitSign_cons {c : Char} (hm : c ≠ '-') (hp : c ≠ '+') (rest : List Char) :
    splitSign (c :: rest) = (false, c :: rest) := by
  unfold splitSign
  split <;> simp_all

theorem splitSign_cases (text : List Char) :
    (splitSign text).2 = text ∨
      ∃ sign, (sign = '+' ∨ sign = '-') ∧ text = sign :: (splitSign text).2 := by
  unfold splitSign
  split <;> simp

def exponent? : List Char → Option Int
  | [] => some 0
  | mark :: rest =>
    if mark = 'e' ∨ mark = 'E' then
      let (negative, digits) := splitSign rest
      if digits ≠ [] ∧ digits.all Char.isDigit then
        some (if negative then -digitsValue digits else digitsValue digits)
      else none
    else none

/-- The digits and the power of ten of a decimal without sign. At least one digit is needed. -/
def unsigned? (text : List Char) : Option (Nat × Int) :=
  let whole := text.takeWhile Char.isDigit
  let rest := text.dropWhile Char.isDigit
  let (fraction, rest) := match rest with
    | '.' :: rest => (rest.takeWhile Char.isDigit, rest.dropWhile Char.isDigit)
    | rest => ([], rest)
  if whole = [] ∧ fraction = [] then none
  else (exponent? rest).map fun power => (digitsValue (whole ++ fraction), power - fraction.length)

def read? (text : List Char) : Option Float :=
  let (negative, rest) := splitSign text
  match unsigned? rest with
  | some (digits, power) => some (ofDigits negative digits power)
  | none =>
    let word := rest.map Char.toLower
    if word = "inf".toList ∨ word = "infinity".toList then
      some (Number.ofOrdinal negative Number.infiniteOrdinal)
    else if word = "nan".toList then some (0.0 / 0.0)
    else none

end VectorFormula.Decimal
