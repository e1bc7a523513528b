set_option autoImplicit false

/-! # Single precision: order with gaps

Distances are single-precision numbers, and a field may answer anything, NaN included. The order
operations below are the ones every other module uses on them. `least` and `greatest` drop a NaN:
a sample that means nothing never beats one that does. `clamp` keeps a NaN, since it compares the
value with its bounds and every comparison with a NaN is false. Which zero `least` and `greatest`
give for zeros of two signs is immaterial: the two zeros compare equal. -/

namespace SignedDistance.Single

/-- The lesser of two numbers; a NaN loses against any number. -/
@[inline] def least (a b : Float32) : Float32 := if a.isNaN || b < a then b else a

/-- The greater of two numbers; a NaN loses against any number. -/
@[inline] def greatest (a b : Float32) : Float32 := if a.isNaN || a < b then b else a

/-- The value moved into `[lo, hi]`; a NaN stays a NaN. -/
@[inline] def clamp (lo hi a : Float32) : Float32 :=
  if a < lo then lo else if hi < a then hi else a

/-- Greater than zero and not infinite: what a scale, a threshold or a speed has to be. -/
@[inline] def isPositiveFinite (a : Float32) : Bool := 0 < a && a.isFinite

end SignedDistance.Single
