import SignedDistance.Decimal.Text
import SignedDistance.Fixed.Vector

set_option autoImplicit false

/-! # Fixed-point numbers as text

A fixed-point number reads as the double it converts to. The long form, which event logs use, also
shows the raw value as 64 bits in hexadecimal, so that a negative number shows its two's
complement. -/

namespace SignedDistance

/-- The raw value as the natural number that its 64 bits spell. -/
def Fixed.bits (a : Fixed) : Nat := (a.raw % 18446744073709551616).toNat

/-- The number in decimal notation. -/
def Fixed.text (a : Fixed) : String := Double.text a.toDouble

/-- The number in decimal notation beside its raw value. -/
def Fixed.longText (a : Fixed) : String :=
  s!"FixedInt({a.text} = 0x{String.ofList (Nat.toDigits 16 a.bits)})"

/-- The three lanes with their raw values. -/
def FixedVec.longText (v : FixedVec) : String :=
  s!"Fixie \x7b x: {v.x.longText}, y: {v.y.longText}, z: {v.z.longText} \x7d"

end SignedDistance
