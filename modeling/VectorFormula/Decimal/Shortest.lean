import VectorFormula.Number.Binary
/-!
The fewest digits that read back. The reals that round to a double form an interval; on a decimal
grid the points nearest to the double are its two neighbours there. `shortest` tries grids from
coarse to fine, and the first grid with a neighbour inside the interval gives the digits.
-/
namespace VectorFormula.Decimal

def onGrid (significand : Nat) (exponent grid : Int) : Nat × Nat :=
  (significand * Nat.pow 2 exponent.toNat * Nat.pow 10 (-grid).toNat,
    Nat.pow 2 (-exponent).toNat * Nat.pow 10 grid.toNat)

/-- Whether `count · 10 ^ grid` rounds to the double `significand · 2 ^ exponent`. The next double
above is one significand unit away, the next one below half as far at the foot of a power of two;
the two ends of the interval belong to it when the significand is even. -/
def readsBack (significand : Nat) (exponent grid : Int) (count : Nat) : Bool :=
  let (unit, scale) := onGrid 1 exponent grid
  let below :=
    if significand = Number.binade ∧ Number.leastExponent < exponent then 1 else 2
  let point := 4 * count * scale
  let low := (4 * significand - below) * unit
  let high := (4 * significand + 2) * unit
  if significand % 2 = 0 then decide (low ≤ point ∧ point ≤ high)
  else decide (low < point ∧ point < high)

/-- The neighbour of `significand · 2 ^ exponent` on the grid `10 ^ grid` that rounds to it. Of two
the nearer one is taken, and of two equally near ones the one above. -/
def neighbour? (significand : Nat) (exponent grid : Int) : Option Nat :=
  let (value, scale) := onGrid significand exponent grid
  let count := value / scale
  let nearerBelow := decide (2 * (value % scale) < scale)
  match readsBack significand exponent grid count, readsBack significand exponent grid (count + 1) with
  | true, true => some (if nearerBelow then count else count + 1)
  | true, false => some count
  | false, true => some (count + 1)
  | false, false => none

def allDigits (significand : Nat) (exponent : Int) : Nat × Int :=
  (significand * Nat.pow 2 exponent.toNat * Nat.pow 5 (-exponent).toNat, min exponent 0)

/-- Tries grids downwards from a given one, and after the tries takes all digits. -/
def search (significand : Nat) (exponent : Int) : Nat → Int → Nat × Int
  | 0, _ => allDigits significand exponent
  | tries + 1, grid =>
    match neighbour? significand exponent grid with
    | some count => (count, grid)
    | none => search significand exponent tries (grid - 1)

/-- A power of ten above `significand · 2 ^ exponent`: the factor is a little over `log₁₀ 2`. -/
def coarsest (significand : Nat) (exponent : Int) : Int :=
  (significand.log2 + 1 + exponent) * 30103 / 100000 + 1

/-- The decimal `digits · 10 ^ grid` with the fewest digits that reads back as the positive double
`significand · 2 ^ exponent`. Seventeen digits always do. -/
def shortest (significand : Nat) (exponent : Int) : Nat × Int :=
  search significand exponent 20 (coarsest significand exponent)

end VectorFormula.Decimal
