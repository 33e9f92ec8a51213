/-!
Doubles as exact numbers. A finite double is a sign, a whole significand and a power of two; the
magnitudes, counted upwards from zero, are numbered by the low 63 bits of the double. `nearest`
finds the double closest to a given fraction, a tie going to the even significand.
-/
namespace VectorFormula.Number

/-- A double as an exact number: `significand · 2 ^ exponent` with a sign, if it is finite. -/
inductive View where
  | undefined
  | infinite (negative : Bool)
  | finite (negative : Bool) (significand : Nat) (exponent : Int)
  deriving DecidableEq, Repr

def leastExponent : Int := -1074

/-- How many magnitudes have one exponent field, `2 ^ 52`. The significands of all fields but the
lowest start here. -/
def binade : Nat := 4503599627370496

/-- The number of the infinite magnitude, one above the largest finite one. -/
def infiniteOrdinal : Nat := 2047 * binade

def signBit : Nat := 2048 * binade

def view (x : Float) : View :=
  let bits := x.toBits.toNat
  let negative := decide (signBit ≤ bits)
  let field := bits / binade % 2048
  let fraction := bits % binade
  if field = 2047 then
    if fraction = 0 then .infinite negative else .undefined
  else if field = 0 then .finite negative fraction leastExponent
  else .finite negative (binade + fraction) (leastExponent + (field - 1 : Nat))

/-- The double of a sign whose magnitude has the given number; from `infiniteOrdinal` on, infinity. -/
def ofOrdinal (negative : Bool) (ordinal : Nat) : Float :=
  let magnitude := min ordinal infiniteOrdinal
  Float.ofBits (UInt64.ofNat (if negative then signBit + magnitude else magnitude))

/-- The whole number nearest to a fraction, a half going to the even neighbour. -/
def roundQuotient (numerator denominator : Nat) : Nat :=
  let quotient := numerator / denominator
  let twice := 2 * (numerator % denominator)
  if twice < denominator then quotient
  else if denominator < twice then quotient + 1
  else quotient + quotient % 2

/-- The power of two at or below a positive fraction. -/
def log2Quotient (numerator denominator : Nat) : Int :=
  let guess : Int := numerator.log2 - denominator.log2
  if denominator * Nat.pow 2 guess.toNat ≤ numerator * Nat.pow 2 (-guess).toNat then guess
  else guess - 1

/-- The double of a sign nearest to a fraction, a half going to the even significand. Magnitudes
of one exponent are consecutive, and so are the last of one exponent and the first of the next. -/
def nearest (negative : Bool) (numerator denominator : Nat) : Float :=
  if numerator = 0 then ofOrdinal negative 0
  else
    let exponent := max leastExponent (log2Quotient numerator denominator - 52)
    let significand :=
      roundQuotient (numerator * Nat.pow 2 (-exponent).toNat)
        (denominator * Nat.pow 2 exponent.toNat)
    ofOrdinal negative ((exponent - leastExponent).toNat * binade + significand)

def ofInt (i : Int) : Float :=
  nearest (decide (i < 0)) i.natAbs 1

end VectorFormula.Number
