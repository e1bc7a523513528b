set_option autoImplicit false

/-! # Changing precision

Positions are integers, field queries run in single precision and the conversions between the two
pass through double precision. This file states each conversion on the parts of a floating-point
number, its sign, mantissa and exponent, so that every one is an exact computation followed by at
most one rounding:

* `Single.toDouble` is exact, every single being a double;
* `Double.toSingle` and `Double.ofInt` round to nearest, ties to even;
* `Double.nearestInt` rounds to the nearest integer, ties away from zero. -/

namespace SignedDistance

open Float.Model (Format UnpackedFloat)

/-- The same value in another format, rounded to nearest with ties to even. -/
def reformat (format : Format) : UnpackedFloat → UnpackedFloat
  | .finite sign mantissa exponent _ => .round format sign mantissa exponent
  | .zero sign => .zero sign
  | .infinity sign => .infinity sign
  | .notANumber => .notANumber

namespace Single

/-- Sign, mantissa and exponent of a single. -/
def parts (x : Float32) : UnpackedFloat := .unpack .binary32 x.toBits.toBitVec

def ofParts (u : UnpackedFloat) : Float32 := .ofBits ⟨u.pack .binary32⟩

end Single

namespace Double

def parts (x : Float) : UnpackedFloat := .unpack .binary64 x.toBits.toBitVec

def ofParts (u : UnpackedFloat) : Float := .ofBits ⟨u.pack .binary64⟩

/-- The single nearest to a double. -/
def toSingle (x : Float) : Float32 := Single.ofParts (reformat .binary32 (parts x))

/-- The double nearest to an integer. -/
def ofInt (n : Int) : Float := ofParts (.ofInt .binary64 n)

end Double

/-- A single as a double, which holds it exactly. -/
def Single.toDouble (x : Float32) : Float := Double.ofParts (reformat .binary64 (Single.parts x))

/-- The single nearest to an integer. -/
def Single.ofInt (n : Int) : Float32 := Single.ofParts (.ofInt .binary32 n)

/-! ## To integers -/

/-- The natural number nearest to `mantissa * 2 ^ exponent`, a half going up. -/
def nearestNat (mantissa : Nat) : Int → Nat
  | .ofNat k => mantissa <<< k
  | .negSucc k => (mantissa + Nat.pow 2 k) >>> (k + 1)

/-- An integer, or the end of the number line that a value lies beyond. -/
inductive Extended where
  /-- Beyond every negative integer. -/
  | belowAll
  | whole (n : Int)
  /-- Beyond every positive integer. -/
  | aboveAll
  deriving DecidableEq, Repr

/-- The integer nearest to a double, halves going away from zero; a NaN counts as zero. -/
def Double.nearestInt (x : Float) : Extended :=
  match parts x with
  | .notANumber | .zero _ => .whole 0
  | .infinity .positive => .aboveAll
  | .infinity .negative => .belowAll
  | .finite sign mantissa exponent _ => .whole (sign.apply (nearestNat mantissa exponent))

end SignedDistance
