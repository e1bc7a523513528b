import SignedDistance.Decimal.Literal
import SignedDistance.Geometry.Vec3

set_option autoImplicit false

/-! # Values on the command line

Every option and argument takes a value of one kind, which is read from a single word. -/

namespace SignedDistance.Command

/-- What an option or an argument takes. -/
inductive Kind where
  /-- A point or a vector: three numbers with commas between them. -/
  | vector
  | number
  | count
  | file
  deriving DecidableEq, Repr

/-- A value that has been read. -/
inductive Value where
  | vector (v : Vec3)
  | number (x : Float32)
  | count (n : UInt32)
  | file (name : String)

/-- Why a text is no value. -/
inductive ValueError where
  /-- The text is empty where it must not be. -/
  | missing
  /-- The text is not of the right form. -/
  | bad (reason : String)

/-! ## Vectors -/

/-- The blanks that may stand around a number in a vector. -/
def isBlank (c : Char) : Bool :=
  ('\t' ≤ c && c ≤ '\r') || c = ' ' || c = '\x85' || c = '\xa0' || c = '\u1680' ||
    ('\u2000' ≤ c && c ≤ '\u200a') || c = '\u2028' || c = '\u2029' || c = '\u202f' ||
    c = '\u205f' || c = '\u3000'

/-- A text without the blanks at its ends. -/
def trimBlanks (text : String) : String :=
  String.ofList ((text.toList.dropWhile isBlank).reverse.dropWhile isBlank).reverse

def readLane (text : String) : Except ValueError Float32 :=
  match Single.read text with
  | .ok x => .ok x
  | .error e => .error (.bad s!"invalid component '{text}': {e.message}")

def readVector (text : String) : Except ValueError Vec3 :=
  match (text.splitOn ",").map trimBlanks with
  | [x, y, z] => do return ⟨← readLane x, ← readLane y, ← readLane z⟩
  | _ => .error (.bad s!"expected x,y,z but got '{text}'")

/-! ## Counts -/

/-- Read digits from the left behind the number `n`. Reading ends at the first character that is
    no digit, or at the digit that takes the number out of 64 signed bits. -/
def readDigits (negative : Bool) (n : Int) : List Char → Except ValueError Int
  | [] => .ok n
  | d :: rest =>
    if isDecimalDigit d then
      let digit : Int := natOfDigits [d]
      let next := if negative then 10 * n - digit else 10 * n + digit
      if 9223372036854775807 < next then .error (.bad "number too large to fit in target type")
      else if next < -9223372036854775808 then
        .error (.bad "number too small to fit in target type")
      else readDigits negative next rest
    else .error (.bad "invalid digit found in string")

/-- A whole number: an optional sign and at least one digit. -/
def readInteger (text : String) : Except ValueError Int :=
  if text.isEmpty then .error (.bad "cannot parse integer from empty string")
  else
    match splitSign text.toList with
    | (_, []) => .error (.bad "invalid digit found in string")
    | (negative, digits) => readDigits negative 0 digits

def readCount (text : String) : Except ValueError UInt32 := do
  let n ← readInteger text
  if 0 ≤ n ∧ n ≤ 4294967295 then return .ofNat n.toNat
  else throw (.bad s!"{n} is not in 0..=4294967295")

/-! ## Kinds -/

namespace Kind

def read (kind : Kind) (text : String) : Except ValueError Value :=
  match kind with
  | .vector => do return .vector (← readVector text)
  | .number =>
    match Single.read text with
    | .ok x => .ok (.number x)
    | .error e => .error (.bad e.message)
  | .count => do return .count (← readCount text)
  | .file => if text.isEmpty then .error .missing else .ok (.file text)

/-- Whether a value may begin with a hyphen, as a vector does whose first lane is negative. -/
def allowsHyphen : Kind → Bool
  | .vector => true
  | _ => false

end Kind

end SignedDistance.Command
