import SignedDistance.Number.Precision

set_option autoImplicit false

/-! # Fixed-point numbers

A `Fixed` counts 1/65536ths: it is an integer of 64 signed bits whose last 16 bits are the
fraction, so its precision is the same everywhere. The integer is held as an `Int` together with
the bounds it keeps, which leaves every operation below a statement about integers.

Sums, differences, negations and remainders are exact or faulty. Products and quotients are
computed exactly, cut to a whole number of units and then moved into range, so they never overflow;
only a quotient by zero is faulty. -/

namespace SignedDistance

/-- A number of 1/65536ths that fits in 64 signed bits. -/
structure Fixed where
  raw : Int
  lower : -9223372036854775808 ≤ raw
  upper : raw ≤ 9223372036854775807
  deriving DecidableEq

inductive Fault where
  | addition
  | subtraction
  | negation
  | division
  | zeroRemainder
  | remainder
  | crossedBounds
  deriving DecidableEq, Repr

def Fault.message : Fault → String
  | .addition => "attempt to add with overflow"
  | .subtraction => "attempt to subtract with overflow"
  | .negation => "attempt to negate with overflow"
  | .division => "attempt to divide by zero"
  | .zeroRemainder => "attempt to calculate the remainder with a divisor of zero"
  | .remainder => "attempt to calculate the remainder with overflow"
  | .crossedBounds => "assertion failed: min <= max"

namespace Fixed

abbrev unit : Int := 65536

theorem ext_raw {a b : Fixed} (h : a.raw = b.raw) : a = b := by
  cases a
  cases b
  simp_all

/-! ## From raw integers -/

/-- The integer itself, or the end of the range that it lies beyond. -/
def saturate (n : Int) : Fixed where
  raw := max (-9223372036854775808) (min n 9223372036854775807)
  lower := by omega
  upper := by omega

theorem raw_saturate (n : Int) :
    (saturate n).raw = max (-9223372036854775808) (min n 9223372036854775807) := rfl

/-- The integer itself, or a fault if it does not fit. -/
def checked (fault : Fault) (n : Int) : Except Fault Fixed :=
  if h : -9223372036854775808 ≤ n ∧ n ≤ 9223372036854775807 then .ok ⟨n, h.1, h.2⟩
  else .error fault

/-- The number with the raw value zero; it is also the default. -/
def zero : Fixed := saturate 0

instance : Inhabited Fixed := ⟨zero⟩

def one : Fixed := saturate unit

/-- One half. -/
def half : Fixed := saturate (unit / 2)

def epsilon : Fixed := saturate 1

def greatest : Fixed := saturate 9223372036854775807

def least : Fixed := saturate (-9223372036854775808)

/-! ## Order -/

def order (a b : Fixed) : Ordering := compare a.raw b.raw

def min (a b : Fixed) : Fixed := if b.raw < a.raw then b else a

def max (a b : Fixed) : Fixed := if b.raw < a.raw then a else b

/-- The number moved between two bounds, which must not be crossed. -/
def clamp (a lo hi : Fixed) : Except Fault Fixed :=
  if hi.raw < lo.raw then .error .crossedBounds
  else if a.raw < lo.raw then .ok lo
  else if hi.raw < a.raw then .ok hi
  else .ok a

def isNegative (a : Fixed) : Bool := a.raw < 0

/-! ## Arithmetic -/

def add (a b : Fixed) : Except Fault Fixed := checked .addition (a.raw + b.raw)

def sub (a b : Fixed) : Except Fault Fixed := checked .subtraction (a.raw - b.raw)

def neg (a : Fixed) : Except Fault Fixed := checked .negation (-a.raw)

/-- The product, rounded down to a whole number of units. -/
def mul (a b : Fixed) : Fixed := saturate (a.raw * b.raw / unit)

/-- The quotient, rounded toward zero to a whole number of units. -/
def div (a b : Fixed) : Except Fault Fixed :=
  if b.raw = 0 then .error .division
  else .ok (saturate ((a.raw * unit).tdiv b.raw))

/-- The remainder of the quotient rounded toward zero. The one remainder whose quotient does not
    fit, that of the smallest number by minus one unit, is a fault. -/
def rem (a b : Fixed) : Except Fault Fixed :=
  if b.raw = 0 then .error .zeroRemainder
  else if a = least ∧ b.raw = -1 then .error .remainder
  else .ok (saturate (a.raw.tmod b.raw))

/-- The magnitude; that of the smallest number, which does not fit, is the largest number. -/
def abs (a : Fixed) : Fixed := saturate a.raw.natAbs

/-- The sum of a list, added up from the front. -/
def sum (xs : List Fixed) : Except Fault Fixed := xs.foldlM add zero

/-! ## Whole numbers -/

/-- The whole number `n`, or the end of the range that it lies beyond. -/
def ofInt (n : Int) : Fixed := saturate (n * unit)

/-- The nearest whole number, halves going to the even neighbour. -/
def toInt (a : Fixed) : Int :=
  let whole := a.raw / unit
  let fraction := a.raw % unit
  if unit / 2 < fraction ∨ (fraction = unit / 2 ∧ whole % 2 = 1) then whole + 1 else whole

def round (a : Fixed) : Fixed := ofInt a.toInt

/-- The largest whole number that is not greater. -/
def floor (a : Fixed) : Fixed where
  raw := a.raw - a.raw % 65536
  lower := by have := a.lower; omega
  upper := by have := a.upper; omega

/-- The smallest whole number that is not less, or the end of the range. -/
def ceil (a : Fixed) : Fixed :=
  if a.raw % unit = 0 then a else saturate (a.floor.raw + unit)

/-- What `floor` leaves, between zero and one. -/
def fract (a : Fixed) : Fixed where
  raw := a.raw % 65536
  lower := by omega
  upper := by omega

/-! ## Floating point -/

/-- An extended integer moved into range. -/
def ofExtended : Extended → Fixed
  | .belowAll => least
  | .whole n => saturate n
  | .aboveAll => greatest

/-- The raw value nearest to a double. -/
def ofRawDouble (x : Float) : Fixed := ofExtended (Double.nearestInt x)

/-- The number nearest to a double; a NaN counts as zero. -/
def ofDouble (x : Float) : Fixed := ofRawDouble (x * 65536)

/-- The number nearest to a single; a NaN counts as zero. -/
def ofSingle (x : Float32) : Fixed := ofDouble (Single.toDouble x)

/-- The double nearest to the number. -/
def toDouble (a : Fixed) : Float := Double.ofInt a.raw / 65536

/-- The single nearest to the double nearest to the number. -/
def toSingle (a : Fixed) : Float32 := Double.toSingle a.toDouble

/-- The square root, by way of double precision; nothing below zero has one, and zero stands in. -/
def sqrt (a : Fixed) : Fixed :=
  if a.raw ≤ 0 then zero else ofRawDouble (Double.ofInt a.raw * 65536).sqrt

end Fixed

end SignedDistance
