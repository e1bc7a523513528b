import SignedDistance.Number.Precision

set_option autoImplicit false

/-! # Decimal digits of a binary fraction

A positive floating-point number is `m * 2 ^ q`. Two ways of writing it down are needed: with the
fewest digits that still read back as the same number, and with a fixed count of places.

For the fewest digits we look at the decimal grids `10 ^ i`, coarse ones first. The reals that read
back as the number form an interval around it, whose ends belong to it exactly when `m` is even. If
any point of a grid lies in the interval, one of the number's two neighbours on that grid does, so
only those are tried; the first grid with a hit has the fewest digits, the nearer neighbour wins
and an exact tie goes up. All of it is arithmetic on natural numbers. -/

namespace SignedDistance

/-! ## Fewest digits -/

/-- A positive number `mantissa * 2 ^ exponent`, and whether its gap to the number below is only
    half the gap to the number above, as it is where the exponent changes. -/
structure BinaryFraction where
  mantissa : Nat
  exponent : Int
  narrowBelow : Bool
  deriving DecidableEq, Repr

namespace BinaryFraction

/-- The number as a fraction in units of `10 ^ i`: numerator of one unit of the mantissa, and
    denominator. -/
def onGrid (b : BinaryFraction) (i : Int) : Nat × Nat :=
  (Nat.pow 2 b.exponent.toNat * Nat.pow 10 (-i).toNat,
    Nat.pow 2 (-b.exponent).toNat * Nat.pow 10 i.toNat)

/-- Whether `c * 10 ^ i` reads back as the number, given the number as a fraction on that grid. -/
def readsBack (b : BinaryFraction) (unit den c : Nat) : Bool :=
  let low := (4 * b.mantissa - (if b.narrowBelow then 1 else 2)) * unit
  let high := (4 * b.mantissa + 2) * unit
  let x := 4 * c * den
  if b.mantissa % 2 = 0 then low ≤ x && x ≤ high else low < x && x < high

/-- The neighbour on the grid `10 ^ i` that reads back as the number and is nearest to it. -/
def neighbour? (b : BinaryFraction) (i : Int) : Option Nat :=
  let (unit, den) := b.onGrid i
  let num := b.mantissa * unit
  let down := num / den
  let downHit := b.readsBack unit den down
  let upHit := b.readsBack unit den (down + 1)
  if upHit && (!downHit || (2 * down + 1) * den ≤ 2 * num) then some (down + 1)
  else if downHit then some down
  else none

/-- Try the grids `10 ^ i`, `10 ^ (i - 1)`, ... and take the first hit. -/
def firstHit (b : BinaryFraction) (i : Int) : Nat → Nat × Int
  | 0 => (0, i)
  | tries + 1 =>
    match b.neighbour? i with
    | some c => (c, i)
    | none => b.firstHit (i - 1) tries

/-- An exponent of ten above the number: `log10 2` is less than `0.30103`. -/
def topGrid (b : BinaryFraction) : Int :=
  ((b.mantissa.log2 + 1 + b.exponent) * 30103) / 100000 + 1

/-- The fewest decimal digits `c` and their exponent `i` such that `c * 10 ^ i` reads back as the
    number. A double never needs more than seventeen digits, so twenty grids are plenty. -/
def shortest (b : BinaryFraction) : Nat × Int := b.firstHit b.topGrid 20

/-! ## Fixed places -/

/-- The number in units of `10 ^ -places`, rounded to nearest with ties to even. -/
def roundedTo (b : BinaryFraction) (places : Nat) : Nat :=
  let (unit, den) := b.onGrid (-(places : Int))
  let num := b.mantissa * unit
  let down := num / den
  let rest := 2 * (num % den)
  if den < rest || (rest = den && down % 2 = 1) then down + 1 else down

end BinaryFraction

end SignedDistance
