import SignedDistance.Fixed.Vector

set_option autoImplicit false

/-! # Positions in 32-bit halves

Graphics hardware reads 32-bit lanes, so a position is handed over as the low and the high halves
of its raw values: three low halves and a padding word, then three high halves and a padding word,
each word with its least byte first. Nothing is lost, so the halves join to the same position. -/

namespace SignedDistance

namespace Fixed

/-- The low and the high half of the raw value. -/
def split (a : Fixed) : UInt32 × UInt32 :=
  (.ofNat (a.raw % 4294967296).toNat, .ofNat (a.raw / 4294967296 % 4294967296).toNat)

/-- The number whose raw value has the given halves. -/
def join (low high : UInt32) : Fixed where
  raw := (high.toNat * 4294967296 + low.toNat : Int) -
    if high.toNat < 2147483648 then 0 else 18446744073709551616
  lower := by have := high.toNat_lt; have := low.toNat_lt; split <;> omega
  upper := by have := high.toNat_lt; have := low.toNat_lt; split <;> omega

end Fixed

/-- The halves of three lanes, with a padding word behind each group. -/
structure Halves where
  lowX : UInt32
  lowY : UInt32
  lowZ : UInt32
  lowPad : UInt32
  highX : UInt32
  highY : UInt32
  highZ : UInt32
  highPad : UInt32
  deriving DecidableEq, Repr

/-- The halves of a position; padding is zero. -/
def FixedVec.split (v : FixedVec) : Halves :=
  let (lowX, highX) := v.x.split
  let (lowY, highY) := v.y.split
  let (lowZ, highZ) := v.z.split
  ⟨lowX, lowY, lowZ, 0, highX, highY, highZ, 0⟩

namespace Halves

/-- The position with the given halves; padding is not looked at. -/
def join (h : Halves) : FixedVec :=
  ⟨.join h.lowX h.highX, .join h.lowY h.highY, .join h.lowZ h.highZ⟩

/-- The words in the order in which they lie in memory. -/
def words (h : Halves) : List UInt32 :=
  [h.lowX, h.lowY, h.lowZ, h.lowPad, h.highX, h.highY, h.highZ, h.highPad]

/-- The four bytes of a word, the least first. -/
def wordBytes (w : UInt32) : List UInt8 :=
  [w.toUInt8, (w >>> 8).toUInt8, (w >>> 16).toUInt8, (w >>> 24).toUInt8]

/-- The thirty-two bytes of the layout. -/
def bytes (h : Halves) : List UInt8 := h.words.flatMap wordBytes

/-- The word with the given bytes, the least first. -/
def wordOfBytes (a b c d : UInt8) : UInt32 :=
  .ofNat (a.toNat + 256 * (b.toNat + 256 * (c.toNat + 256 * d.toNat)))

/-- The words that lie in a row of bytes, unless bytes are left over. -/
def words? : List UInt8 → Option (List UInt32)
  | [] => some []
  | a :: b :: c :: d :: rest => (words? rest).map (wordOfBytes a b c d :: ·)
  | _ => none

/-- The halves with the given bytes, of which there have to be thirty-two. -/
def ofBytes? (bytes : List UInt8) : Option Halves :=
  match words? bytes with
  | some [lowX, lowY, lowZ, lowPad, highX, highY, highZ, highPad] =>
    some ⟨lowX, lowY, lowZ, lowPad, highX, highY, highZ, highPad⟩
  | _ => none

end Halves

end SignedDistance
