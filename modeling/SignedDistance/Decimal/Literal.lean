set_option autoImplicit false

/-! # Reading numbers from text

The literals a user types: an optional sign, then either digits with an optional point and an
optional exponent, or one of the words `inf`, `infinity` and `nan` in any case. At least one digit
has to stand before the exponent, before or behind the point. Nothing else is accepted, so no
blanks, no separators and no suffixes. The value is the single nearest to the decimal written. -/

namespace SignedDistance

/-! ## Digits -/

def isDecimalDigit (c : Char) : Bool := '0' ≤ c && c ≤ '9'

/-- The natural number that a list of decimal digits spells. -/
def natOfDigits (digits : List Char) : Nat :=
  digits.foldl (fun n c => 10 * n + (c.toNat - '0'.toNat)) 0

/-- The leading digits of a text and what follows them. -/
def spanDigits (text : List Char) : List Char × List Char := text.span isDecimalDigit

/-- An optional sign in front of a text: whether it is a minus, and the rest. -/
def splitSign : List Char → Bool × List Char
  | '-' :: rest => (true, rest)
  | '+' :: rest => (false, rest)
  | text => (false, text)

/-! ## Single-precision literals -/

/-- Why a text is no number. -/
inductive LiteralError where
  | empty
  | malformed
  deriving DecidableEq, Repr

def LiteralError.message : LiteralError → String
  | .empty => "cannot parse float from empty string"
  | .malformed => "invalid float literal"

/-- The exponent part of a literal, which is missing, or a letter, an optional sign and digits. -/
def exponentPart? : List Char → Option Int
  | [] => some 0
  | c :: rest =>
    if c = 'e' || c = 'E' then
      let (negative, text) := splitSign rest
      if text ≠ [] && text.all isDecimalDigit then
        some (if negative then -(natOfDigits text : Int) else natOfDigits text)
      else none
    else none

/-- The digits behind the point, if there is one, and what follows them. -/
def fractionPart : List Char → List Char × List Char
  | '.' :: rest => spanDigits rest
  | text => ([], text)

/-- An unsigned decimal as an integer and a power of ten. -/
def decimal? (text : List Char) : Option (Nat × Int) := do
  let (whole, rest) := spanDigits text
  let (fraction, rest) := fractionPart rest
  if whole = [] && fraction = [] then none
  else
    let exponent ← exponentPart? rest
    some (natOfDigits (whole ++ fraction), exponent - fraction.length)

/-- The single nearest to `c * 10 ^ i`. Where the leading digit alone shows that the number is
    beyond the singles, or nearer to zero than to any other, the power of ten is not computed. -/
def Single.ofDecimal (c : Nat) (i : Int) : Float32 :=
  let lead := (toString c).length + i
  if c = 0 || lead < -60 then 0
  else if 60 < lead then 1 / 0
  else Float32.ofScientific c (i < 0) i.natAbs

/-- An unsigned literal: a decimal, or a word for a value that has no digits. -/
def magnitude? (text : List Char) : Option Float32 :=
  match decimal? text with
  | some (c, i) => some (Single.ofDecimal c i)
  | none =>
    match String.ofList (text.map Char.toLower) with
    | "inf" | "infinity" => some (1 / 0)
    | "nan" => some (0 / 0)
    | _ => none

def Single.read (text : String) : Except LiteralError Float32 :=
  if text.isEmpty then .error .empty
  else
    let (negative, rest) := splitSign text.toList
    match magnitude? rest with
    | some x => .ok (if negative then -x else x)
    | none => .error .malformed

end SignedDistance
