import SignedDistance.Command.Grammar

set_option autoImplicit false

/-! # Reading the command line

The value of an option is attached to it, or is the next word. A word with a hyphen in front is
looked up among the options first; it is a value only where the slot that waits for one allows
that. Behind a word `--`, every word is an argument, however it looks.

An attached value is read at once. Any other is read when the next option or argument begins, or
at the end, so a word that fits nowhere is reported before a bad value in front of it. -/

namespace SignedDistance.Command

/-! ## Results -/

/-- Why a command line is refused. -/
inductive UsageError where
  | unexpectedWord (word : String)
  | unknownCommand (word : String)
  | unexpectedValue (value shown : String)
  | missingValue (shown : String)
  | repeated (shown : String)
  | badValue (value shown reason : String)
  | missingSlots
  | missingCommand

def UsageError.message : UsageError → String
  | .unexpectedWord word => s!"unexpected argument '{word}' found"
  | .unknownCommand word => s!"unrecognized subcommand '{word}'"
  | .unexpectedValue value shown =>
    s!"unexpected value '{value}' for '{shown}' found; no more were expected"
  | .missingValue shown => s!"a value is required for '{shown}' but none was supplied"
  | .repeated shown => s!"the argument '{shown}' cannot be used multiple times"
  | .badValue value shown reason => s!"invalid value '{value}' for '{shown}': {reason}"
  | .missingSlots => "the following required arguments were not provided:"
  | .missingCommand => "'carve' requires a subcommand but one was not provided"

/-- How reading ends without a query. -/
inductive Stop where
  /-- Help on a command, or on all of them, is asked for. -/
  | help (verb : Option Verb)
  | version
  /-- Nothing is asked for. -/
  | nothing
  | refused (e : UsageError)

inductive Query where
  | disasm
  | eval (point : Vec3)
  | trace (start target : Vec3)
  | shadow (start light : Vec3) (size : Float32)
  | simulate (position velocity : Vec3) (dt : Float32) (steps : UInt32)

structure Invocation where
  /-- The name of the settings file, if one is given. -/
  settings : Option String
  query : Query

/-! ## Slots being filled -/

/-- What has been read of the words of one grammar. -/
structure Reading where
  /-- The slots that are filled. -/
  given : List (Slot × Value)
  /-- The slot whose value has not been read yet, with its text if that has come. -/
  pending : Option (Slot × Option String)
  /-- Whether every further word is an argument. -/
  verbatim : Bool

namespace Reading

def start : Reading := ⟨[], none, false⟩

def fill (r : Reading) (s : Slot) (text : String) : Except Stop Reading :=
  if r.given.any fun (t, _) => t = s then .error (.refused (.repeated s.shown))
  else
    match s.kind.read text with
    | .ok v => .ok { r with given := r.given ++ [(s, v)] }
    | .error .missing => .error (.refused (.missingValue s.shown))
    | .error (.bad reason) => .error (.refused (.badValue text s.shown reason))

/-- Read the value that is pending. -/
def settle (r : Reading) : Except Stop Reading :=
  match r.pending with
  | none => .ok r
  | some (s, none) => .error (.refused (.missingValue s.shown))
  | some (s, some text) => { r with pending := none }.fill s text

/-- Begin an option whose value is to come. -/
def await (r : Reading) (s : Slot) : Except Stop Reading := do
  return { ← r.settle with pending := some (s, none) }

/-- Begin an option with its value attached. -/
def attach (r : Reading) (s : Slot) (text : String) : Except Stop Reading := do
  (← r.settle).fill s text

/-- The option that waits for a value. -/
def awaited? (r : Reading) : Option Slot :=
  match r.pending with
  | some (s, none) => some s
  | _ => none

/-- Whether a slot is filled or about to be. -/
def taken (r : Reading) (s : Slot) : Bool :=
  (r.given.any fun (t, _) => t = s) || r.pending.any fun (t, _) => t = s

/-- What a slot holds: the value given, or the one that its default text reads as. -/
def value? (r : Reading) (s : Slot) : Option Value :=
  match r.given.find? fun (t, _) => t = s with
  | some (_, v) => some v
  | none =>
    match s.need with
    | .default text => (s.kind.read text).toOption
    | _ => none

def vector? (r : Reading) (s : Slot) : Option Vec3 :=
  match r.value? s with
  | some (.vector v) => some v
  | _ => none

def number? (r : Reading) (s : Slot) : Option Float32 :=
  match r.value? s with
  | some (.number x) => some x
  | _ => none

def count? (r : Reading) (s : Slot) : Option UInt32 :=
  match r.value? s with
  | some (.count n) => some n
  | _ => none

def file? (r : Reading) (s : Slot) : Option String :=
  match r.value? s with
  | some (.file name) => some name
  | _ => none

end Reading

/-! ## Words -/

/-- A word at which the words of another grammar begin. -/
inductive Entry where
  | verb (v : Verb)
  | help

def Entry.ofName? (name : String) : Option Entry :=
  if name = "help" then some .help else (Verb.ofName? name).map .verb

namespace Grammar

/-- A word that fits nowhere. -/
def refuse (g : Grammar) (r : Reading) (word : String) : Stop :=
  .refused <|
    if g.commands && !(r.verbatim && (Entry.ofName? word).isSome) then .unknownCommand word
    else .unexpectedWord word

/-- A word that is no option: the value that is waited for, or the argument. -/
def plain (g : Grammar) (r : Reading) (word : String) : Except Stop Reading :=
  match if r.verbatim then none else r.awaited? with
  | some s => .ok { r with pending := some (s, some word) }
  | none =>
    match g.argument with
    | some s =>
      if r.taken s then .error (g.refuse r word)
      else do return { ← r.settle with pending := some (s, some word) }
    | none => .error (g.refuse r word)

/-- A switch ends the reading, after the value that is pending has been read. -/
def turn (r : Reading) (verb : Option Verb) (s : Switch) : Except Stop Reading := do
  let _ ← r.settle
  match s with
  | .help => throw (.help verb)
  | .version => throw .version

/-- Whether a word that looks like an option but is none may be the argument. -/
def allowsHyphen (g : Grammar) (r : Reading) : Bool :=
  g.argument.any fun s => s.kind.allowsHyphen && !r.taken s

/-- A word with two hyphens in front: a name, and perhaps a value behind an equals sign. -/
def long (g : Grammar) (verb : Option Verb) (r : Reading) (word : String) (rest : List Char) :
    Except Stop Reading :=
  let name := String.ofList (rest.takeWhile (· ≠ '='))
  let value : Option String :=
    match rest.dropWhile (· ≠ '=') with
    | [] => none
    | _ :: text => some (String.ofList text)
  match g.option? name, g.switch? name, value with
  | some s, _, some text => r.attach s text
  | some s, _, none => r.await s
  | none, some s, some text => .error (.refused (.unexpectedValue text s!"--{s.name}"))
  | none, some s, none => turn r verb s
  | none, none, _ =>
    if g.allowsHyphen r then g.plain r word else .error (.refused (.unexpectedWord s!"--{name}"))

/-- A word with one hyphen in front: a letter, and perhaps a value right behind it or behind an
    equals sign. A hyphen alone is no option. -/
def letters (g : Grammar) (verb : Option Verb) (r : Reading) (word : String) (rest : List Char) :
    Except Stop Reading :=
  if g.allowsHyphen r && rest.any (!g.knowsLetter ·) then g.plain r word
  else
    match rest with
    | [] => g.plain r word
    | c :: text =>
      match g.letter? c, g.switchLetter? c, text with
      | some s, _, [] => r.await s
      | some s, _, '=' :: text => r.attach s (String.ofList text)
      | some s, _, text => r.attach s (String.ofList text)
      | none, some s, _ => turn r verb s
      | none, none, _ => .error (.refused (.unexpectedWord s!"-{c}"))

/-- A word that begins no command. -/
def word (g : Grammar) (verb : Option Verb) (r : Reading) (word : String) : Except Stop Reading :=
  if r.verbatim || r.awaited?.any (·.kind.allowsHyphen) then g.plain r word
  else
    match word.toList with
    | ['-', '-'] => .ok { r with verbatim := true }
    | '-' :: '-' :: rest => g.long verb r word rest
    | '-' :: rest => g.letters verb r word rest
    | _ => g.plain r word

/-- Read words up to the end or to a command, which comes with the words behind it. -/
def read (g : Grammar) (verb : Option Verb) (r : Reading) :
    List String → Except Stop (Reading × Option (Entry × List String))
  | [] => .ok (r, none)
  | w :: rest =>
    match if g.commands && !r.verbatim && r.awaited?.isNone then Entry.ofName? w else none with
    | some entry => .ok (r, some (entry, rest))
    | none =>
      match g.word verb r w with
      | .ok r => g.read verb r rest
      | .error stop => .error stop

end Grammar

/-! ## The whole line -/

/-- What a command asks, if the slots that it needs are filled. -/
def Verb.query? (r : Reading) : Verb → Option Query
  | .disasm => some .disasm
  | .eval => do return .eval (← r.vector? .point)
  | .trace => do return .trace (← r.vector? .rayStart) (← r.vector? .rayTarget)
  | .shadow => do
    return .shadow (← r.vector? .shaded) (← r.vector? .light) (← r.number? .lightSize)
  | .simulate => do
    return .simulate (← r.vector? .position) (← r.vector? .velocity) (← r.number? .timestep)
      (← r.count? .steps)

/-- What the words behind the help command ask for: nothing, or the name of one command. -/
def helpOn : List String → Stop
  | [] => .help none
  | name :: rest =>
    match Entry.ofName? name, rest with
    | some (.verb v), [] => .help (some v)
    | some .help, [] => .help none
    | some _, word :: _ => .refused (.unknownCommand word)
    | none, _ => .refused (.unknownCommand name)

/-- Read a command line. Settings named behind the command go before settings named in front of
    it. -/
def Invocation.ofWords (words : List String) : Except Stop Invocation := do
  match ← Grammar.root.read none .start words with
  | (outer, none) =>
    let outer ← outer.settle
    throw (if outer.given.isEmpty then .nothing else .refused .missingCommand)
  | (_, some (.help, rest)) => throw (helpOn rest)
  | (outer, some (.verb verb, rest)) =>
    let (inner, _) ← verb.grammar.read (some verb) .start rest
    let inner ← inner.settle
    match verb.query? inner with
    | none => throw (.refused .missingSlots)
    | some query =>
      let outer ← outer.settle
      return ⟨inner.file? .config <|> outer.file? .config, query⟩

end SignedDistance.Command
