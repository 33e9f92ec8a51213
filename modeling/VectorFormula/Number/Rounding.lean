import VectorFormula.Number.Binary
/-!
Whole parts of doubles: truncation, rounding to whole doubles, and the remainder of a division.
All are computed on the exact numbers, so none of them rounds twice.
-/
namespace VectorFormula.Number

def truncate? (x : Float) : Option Int :=
  match view x with
  | .finite negative significand exponent =>
    let magnitude := significand * Nat.pow 2 exponent.toNat / Nat.pow 2 (-exponent).toNat
    some (if negative then -magnitude else magnitude)
  | _ => none

/-- The least 64-bit whole number, `-2 ^ 63`. -/
def least64 : Int := -9223372036854775808

/-- The greatest 64-bit whole number, `2 ^ 63 - 1`. -/
def greatest64 : Int := 9223372036854775807

/-- The 64-bit whole number nearest to a truncated double; an undefined one counts as zero. -/
def clamp64 (x : Float) : Int :=
  match view x with
  | .undefined => 0
  | .infinite negative => if negative then least64 else greatest64
  | .finite .. => max least64 (min greatest64 ((truncate? x).getD 0))

/-- Replaces a fractional double by a whole one of its sign, given how to round the magnitude. A
double that has no fraction is left as it is. -/
def wholeBy (round : Bool → Nat → Nat → Nat) (x : Float) : Float :=
  match view x with
  | .finite negative significand exponent =>
    if exponent < 0 then
      nearest negative (round negative significand (Nat.pow 2 (-exponent).toNat)) 1
    else x
  | _ => x

def divideUp (numerator denominator : Nat) : Nat :=
  (numerator + (denominator - 1)) / denominator

def floor : Float → Float :=
  wholeBy fun negative a b => if negative then divideUp a b else a / b

def ceiling : Float → Float :=
  wholeBy fun negative a b => if negative then a / b else divideUp a b

def roundEven : Float → Float :=
  wholeBy fun _ a b => roundQuotient a b

def undefined : Float := 0.0 / 0.0

/-- The remainder of a division whose quotient is truncated; it has the sign of the dividend. -/
def remainder (x y : Float) : Float :=
  match view x, view y with
  | .finite negative m e, .finite _ n f =>
    if n = 0 then undefined
    else
      let low := min e f
      let rest := m * Nat.pow 2 (e - low).toNat % (n * Nat.pow 2 (f - low).toNat)
      nearest negative (rest * Nat.pow 2 low.toNat) (Nat.pow 2 (-low).toNat)
  | .finite .., .infinite _ => x
  | _, _ => undefined

/-- The largest safe magnitude, `2 ^ 53 - 1`: every whole number up to it is a double, and no two
share one. -/
def safeLimit : Nat := 9007199254740991

/-- Whether a whole number is within the limit up to which doubles count without gaps. -/
def isSafe (i : Int) : Bool :=
  decide (i.natAbs ≤ safeLimit)

def ofSafe? (i : Int) : Option Float :=
  if isSafe i then some (ofInt i) else none

end VectorFormula.Number
