import SignedDistance.Json.Basic

set_option autoImplicit false

/-! # Reading JSON text

A reader takes a list of characters and gives a value and the characters behind it, or nothing
where the text is not JSON. Nesting is bounded only by the length of the text, which is what the
`fuel` of the mutually recursive readers counts: every level of nesting and every item costs at
least one character. -/

namespace SignedDistance.Json

def isBlank (c : Char) : Bool := c = ' ' || c = '\n' || c = '\t' || c = '\r'

def skipBlanks (text : List Char) : List Char := text.dropWhile isBlank

/-! ## Numbers -/

def digits1? (text : List Char) : Option (List Char × List Char) :=
  match spanDigits text with
  | ([], _) => none
  | (digits, rest) => some (digits, rest)

/-- The digits before the point: a zero that stands alone, or digits that start with none. -/
def wholePart? (text : List Char) : Option (List Char × List Char) :=
  match spanDigits text with
  | ([], _) => none
  | ('0' :: _ :: _, _) => none
  | (digits, rest) => some (digits, rest)

/-- A point and digits, or nothing. -/
def fraction? : List Char → Option (List Char × List Char)
  | '.' :: rest => digits1? rest
  | text => some ([], text)

/-- The letter of an exponent, an optional sign and digits, or nothing. -/
def exponent? : List Char → Option (Int × List Char)
  | c :: rest =>
    if c = 'e' || c = 'E' then do
      let (negative, rest) := splitSign rest
      let (digits, rest) ← digits1? rest
      some (if negative then -(natOfDigits digits : Int) else natOfDigits digits, rest)
    else some (0, c :: rest)
  | [] => some (0, [])

def numeral? (text : List Char) : Option (Numeral × List Char) := do
  let (negative, rest) := match text with
    | '-' :: rest => (true, rest)
    | text => (false, text)
  let (whole, afterWhole) ← wholePart? rest
  let (fraction, afterFraction) ← fraction? afterWhole
  let (exponent, rest) ← exponent? afterFraction
  some (⟨negative, whole, fraction, exponent, rest.length = afterWhole.length⟩, rest)

/-! ## Strings -/

/-- The value of a hexadecimal digit. -/
def hexValue? (c : Char) : Option Nat :=
  if isDecimalDigit c then some (c.toNat - '0'.toNat)
  else if 'a' ≤ c && c ≤ 'f' then some (c.toNat - 'a'.toNat + 10)
  else if 'A' ≤ c && c ≤ 'F' then some (c.toNat - 'A'.toNat + 10)
  else none

/-- The code unit that four hexadecimal digits spell. -/
def hexUnit? (a b c d : Char) : Option Nat := do
  some (((((← hexValue? a) * 16) + (← hexValue? b)) * 16 + (← hexValue? c)) * 16 + (← hexValue? d))

/-- The character that a one-letter escape stands for. -/
def escaped? : Char → Option Char
  | '"' => some '"'
  | '\\' => some '\\'
  | '/' => some '/'
  | 'b' => some '\x08'
  | 'f' => some '\x0c'
  | 'n' => some '\n'
  | 'r' => some '\r'
  | 't' => some '\t'
  | _ => none

/-- The code units of a string up to its closing quote, in reverse behind `units`. -/
def stringUnits? (units : List Nat) : List Char → Option (List Nat × List Char)
  | [] => none
  | '"' :: rest => some (units.reverse, rest)
  | '\\' :: 'u' :: a :: b :: c :: d :: rest =>
    match hexUnit? a b c d with
    | some u => stringUnits? (u :: units) rest
    | none => none
  | '\\' :: c :: rest =>
    match escaped? c with
    | some e => stringUnits? (e.toNat :: units) rest
    | none => none
  | c :: rest => if c.toNat < 32 then none else stringUnits? (c.toNat :: units) rest

/-- The text that code units spell; a surrogate has to be one of a pair. -/
def textOfUnits? : List Nat → Option (List Char)
  | [] => some []
  | [u] => if 0xD800 ≤ u && u < 0xE000 then none else some [Char.ofNat u]
  | u :: v :: rest =>
    if 0xD800 ≤ u && u < 0xDC00 then
      if 0xDC00 ≤ v && v < 0xE000 then
        (textOfUnits? rest).map (Char.ofNat (0x10000 + (u - 0xD800) * 0x400 + (v - 0xDC00)) :: ·)
      else none
    else if 0xDC00 ≤ u && u < 0xE000 then none
    else (textOfUnits? (v :: rest)).map (Char.ofNat u :: ·)

def stringBody? (text : List Char) : Option (Option String × List Char) := do
  let (units, rest) ← stringUnits? [] text
  some ((textOfUnits? units).map String.ofList, rest)

/-! ## Values -/

/-- The rest of a text behind a word that it starts with. -/
def stripWord? : List Char → List Char → Option (List Char)
  | [], text => some text
  | w :: ws, c :: text => if w = c then stripWord? ws text else none
  | _ :: _, [] => none

/-- A value spelled by one word. -/
def word? (word : String) (value : Json) (text : List Char) : Option (Json × List Char) :=
  (stripWord? word.toList text).map fun rest => (value, rest)

mutual

def value? : Nat → List Char → Option (Json × List Char)
  | 0, _ => none
  | fuel + 1, text =>
    match skipBlanks text with
    | '"' :: rest => (stringBody? rest).map fun (s, rest) => (.string s, rest)
    | '[' :: rest =>
      match skipBlanks rest with
      | ']' :: rest => some (.array [], rest)
      | rest => (items? fuel rest).map fun (items, rest) => (.array items, rest)
    | '\x7b' :: rest =>
      match skipBlanks rest with
      | '\x7d' :: rest => some (.object [], rest)
      | rest => (fields? fuel rest).map fun (fields, rest) => (.object fields, rest)
    | 'n' :: rest => word? "null" .null ('n' :: rest)
    | 't' :: rest => word? "true" (.bool true) ('t' :: rest)
    | 'f' :: rest => word? "false" (.bool false) ('f' :: rest)
    | rest => (numeral? rest).map fun (n, rest) => (.number n, rest)

/-- The items of an array up to its closing bracket; there is at least one. -/
def items? : Nat → List Char → Option (List Json × List Char)
  | 0, _ => none
  | fuel + 1, text => do
    let (item, rest) ← value? fuel text
    match skipBlanks rest with
    | ',' :: rest => (items? fuel rest).map fun (items, rest) => (item :: items, rest)
    | ']' :: rest => some ([item], rest)
    | _ => none

/-- The fields of an object up to its closing brace; there is at least one. -/
def fields? : Nat → List Char → Option (List (Option String × Json) × List Char)
  | 0, _ => none
  | fuel + 1, text => do
    let rest ← stripWord? ['"'] (skipBlanks text)
    let (key, rest) ← stringBody? rest
    let rest ← stripWord? [':'] (skipBlanks rest)
    let (value, rest) ← value? fuel rest
    match skipBlanks rest with
    | ',' :: rest => (fields? fuel rest).map fun (fields, rest) => ((key, value) :: fields, rest)
    | '\x7d' :: rest => some ([(key, value)], rest)
    | _ => none

end

/-- Read a text that holds one value and nothing else. -/
def parse? (text : String) : Option Json := do
  let chars := text.toList
  let (value, rest) ← value? (chars.length + 1) chars
  if skipBlanks rest = [] then some value else none

end SignedDistance.Json
