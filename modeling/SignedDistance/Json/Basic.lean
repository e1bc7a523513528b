import SignedDistance.Decimal.Literal
import SignedDistance.Number.Precision

set_option autoImplicit false

/-! # JSON values

Settings and stored records are JSON. A value keeps what its text says: an object keeps its fields
in order, repeated ones included, and a number keeps its digits, so that `5` and `5.0` stay
different. What a number means is decided only where a reader asks for it; a number nobody asks
for is never out of range. -/

namespace SignedDistance

/-! ## Numbers -/

/-- A number as it is written: its digits before the point and behind it, and its exponent. -/
structure Numeral where
  negative : Bool
  whole : List Char
  fraction : List Char
  /-- The exponent of ten that is written out. -/
  exponent : Int
  /-- Whether neither a point nor an exponent is written. -/
  plain : Bool
  deriving DecidableEq, Repr

/-- What a number means: an integer of 64 bits, or else a double. -/
inductive Quantity where
  | integer (n : Int)
  | real (x : Float)

namespace Numeral

/-- A significand and an exponent of ten. -/
abbrev Scaled := Nat × Int

/-- The largest significand that is kept. -/
def largestSignificand : Nat := 18446744073709551615

/-- Append digits before the point as long as the significand stays within 64 bits; each digit that
    does not fit only raises the exponent. -/
def appendWhole (significand : Nat) : List Char → Scaled
  | [] => (significand, 0)
  | d :: rest =>
    let next := 10 * significand + natOfDigits [d]
    if next ≤ largestSignificand then appendWhole next rest
    else (significand, rest.length + 1)

/-- Append digits behind the point as long as the significand stays within 64 bits, and drop the
    others. -/
def appendFraction : Scaled → List Char → Scaled
  | s, [] => s
  | (significand, exponent), d :: rest =>
    let next := 10 * significand + natOfDigits [d]
    if next ≤ largestSignificand then appendFraction (next, exponent - 1) rest
    else (significand, exponent)

def tenTo (k : Nat) : Float := Float.ofScientific 1 false k

/-- `significand * 10 ^ exponent`, by one multiplication or division in double precision, or two
    divisions where the power of ten itself is no double. A number past the doubles is refused. -/
def scaleUp? (significand : Nat) (exponent : Int) : Option Float :=
  let f := Double.ofInt significand
  if significand = 0 then some f
  else if 308 < exponent then none
  else if 0 ≤ exponent then
    let g := f * tenTo exponent.toNat
    if g.isInf then none else some g
  else if -308 ≤ exponent then some (f / tenTo (-exponent).toNat)
  else if -616 ≤ exponent then some (f / tenTo 308 / tenTo (-exponent - 308).toNat)
  else some 0

/-- The number in double precision. -/
def toDouble? (n : Numeral) : Option Float := do
  let (significand, exponent) := appendFraction (appendWhole 0 n.whole) n.fraction
  let magnitude ← scaleUp? significand (exponent + n.exponent)
  some (if n.negative then -magnitude else magnitude)

/-- What the number means. Only a number written without a point or an exponent is an integer; a
    negative zero and an integer beyond 64 bits are doubles. -/
def quantity? (n : Numeral) : Option Quantity :=
  let magnitude : Int := natOfDigits n.whole
  if n.plain && !n.negative && magnitude ≤ 18446744073709551615 then
    some (.integer magnitude)
  else if n.plain && n.negative && 0 < magnitude && magnitude ≤ 9223372036854775808 then
    some (.integer (-magnitude))
  else n.toDouble?.map .real

end Numeral

/-! ## Values -/

/-- A JSON value. A string whose escapes spell no text is kept as `none`: it may stand where nobody
    reads it. -/
inductive Json where
  | null
  | bool (b : Bool)
  | number (n : Numeral)
  | string (text : Option String)
  | array (items : List Json)
  | object (fields : List (Option String × Json))

namespace Json

/-- The values that an object gives to a name, in order. -/
def valuesAt (name : String) : Json → List Json
  | .object fields => fields.filterMap fun (key, value) => if key = some name then some value else none
  | _ => []

/-- The first value that an object gives to a name. -/
def at? (json : Json) (name : String) : Option Json := (json.valuesAt name).head?

end Json

end SignedDistance
