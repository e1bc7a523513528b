import SignedDistance.Decimal.Digits

set_option autoImplicit false

/-! # Decimal text

Numbers are written in positional notation only, never with an exponent: `1e21` is a one and
twenty-one zeros. A whole number carries no point. With a fixed count of places the exact binary
value is rounded, ties to even, and a negative number that rounds to zero keeps its sign. -/

namespace SignedDistance

open Float.Model (Format UnpackedFloat)

/-! ## Placing the point -/

/-- The decimal digits of `c` with the last `places` of them behind the point. -/
def withPoint (c places : Nat) : String :=
  if places = 0 then toString c
  else
    let digits := toString c
    let padded := "".pushn '0' (places + 1 - digits.length) ++ digits
    let cut := padded.length - places
    (padded.take cut).toString ++ "." ++ (padded.drop cut).toString

/-- The positional text of `c * 10 ^ i`. -/
def positional (c : Nat) : Int → String
  | .ofNat zeros => toString c ++ "".pushn '0' zeros
  | .negSucc k => withPoint c (k + 1)

/-! ## Numbers -/

/-- The parts of a finite non-zero number as a fraction in the given format. -/
def BinaryFraction.ofParts (format : Format) (mantissa : Nat) (exponent : Int) : BinaryFraction where
  mantissa := mantissa
  exponent := exponent
  narrowBelow := mantissa = Nat.pow 2 format.mantissaBitsWithoutImplicit && format.minExponent < exponent

def signText : UnpackedFloat.Sign → String
  | .positive => ""
  | .negative => "-"

/-- Write a number: its sign, and its magnitude by `magnitude`. Infinities are `inf`, and a NaN
    has no sign. -/
def writeParts (format : Format) (zero : String) (magnitude : BinaryFraction → String) :
    UnpackedFloat → String
  | .notANumber => "NaN"
  | .infinity sign => signText sign ++ "inf"
  | .zero sign => signText sign ++ zero
  | .finite sign m e _ => signText sign ++ magnitude (.ofParts format m e)

/-- The fewest digits that read back as the number, in positional notation. -/
def BinaryFraction.text (b : BinaryFraction) : String :=
  let (c, i) := b.shortest
  positional c i

/-- The number rounded to a fixed count of places. -/
def BinaryFraction.fixedText (places : Nat) (b : BinaryFraction) : String :=
  withPoint (b.roundedTo places) places

/-- The shortest text that reads back as the same single. -/
def Single.text (x : Float32) : String :=
  writeParts .binary32 "0" BinaryFraction.text (parts x)

def Single.fixedText (places : Nat) (x : Float32) : String :=
  writeParts .binary32 (withPoint 0 places) (BinaryFraction.fixedText places) (parts x)

/-- The shortest text that reads back as the same double. -/
def Double.text (x : Float) : String :=
  writeParts .binary64 "0" BinaryFraction.text (parts x)

end SignedDistance
