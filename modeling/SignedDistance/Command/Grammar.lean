import SignedDistance.Command.Value

set_option autoImplicit false

/-! # The commands and what they take

A command line is a list of words: options in front of the command, the command, and then the
command's own options and its argument. A slot is a place for one value: an option, which has a
name and perhaps a letter, or the argument. A switch takes no value; it ends the reading. -/

namespace SignedDistance.Command

/-! ## Slots and switches -/

/-- How a slot is addressed. -/
inductive Role where
  /-- By its position among the words. -/
  | argument
  /-- By its name, or by a letter. -/
  | option (letter : Option Char)
  deriving DecidableEq, Repr

/-- Whether a slot has to be filled. -/
inductive Need where
  | required
  | optional
  /-- The slot holds what this text reads as unless it is filled. -/
  | default (text : String)
  deriving DecidableEq, Repr

structure Slot where
  name : String
  role : Role
  kind : Kind
  need : Need
  about : String
  deriving DecidableEq, Repr

namespace Slot

def letter (s : Slot) : Option Char :=
  match s.role with
  | .option letter => letter
  | .argument => none

/-- How a slot is shown to the user. -/
def shown (s : Slot) : String :=
  match s.role with
  | .argument => s!"<{s.name.toUpper}>"
  | .option _ => s!"--{s.name} <{s.name.toUpper}>"

/-- The settings file, which every command takes. -/
def config : Slot :=
  ⟨"config", .option (some 'c'), .file, .optional,
    "JSON settings file with `trace` and `movement` sections"⟩

def point : Slot := ⟨"point", .argument, .vector, .required, "Query point as x,y,z"⟩

def rayStart : Slot := ⟨"from", .option none, .vector, .required, "Ray origin as x,y,z"⟩

def rayTarget : Slot :=
  ⟨"to", .option none, .vector, .required, "Point the ray aims through, as x,y,z"⟩

def shaded : Slot := ⟨"from", .option none, .vector, .required, "Shaded point as x,y,z"⟩

def light : Slot := ⟨"light", .option none, .vector, .required, "Light position as x,y,z"⟩

def lightSize : Slot :=
  ⟨"size", .option none, .number, .default "0.1",
    "Light radius; larger lights cast softer shadows"⟩

def position : Slot :=
  ⟨"position", .option none, .vector, .default "-6,0.5,1", "Start position as x,y,z"⟩

def velocity : Slot :=
  ⟨"velocity", .option none, .vector, .default "4,0,-1", "Initial velocity as x,y,z"⟩

def timestep : Slot := ⟨"dt", .option none, .number, .default "0.05", "Timestep in seconds"⟩

def steps : Slot := ⟨"steps", .option (some 's'), .count, .default "60", "Number of steps"⟩

end Slot

/-- An option without a value, which ends the reading. -/
inductive Switch where
  | help
  | version
  deriving DecidableEq, Repr

namespace Switch

def name : Switch → String
  | .help => "help"
  | .version => "version"

def letter : Switch → Char
  | .help => 'h'
  | .version => 'V'

end Switch

/-! ## Commands -/

/-- The commands that ask something of the scene. -/
inductive Verb where
  | disasm
  | eval
  | trace
  | shadow
  | simulate
  deriving DecidableEq, Repr

namespace Verb

/-- Every command, in the order in which they are listed. -/
def all : List Verb := [.disasm, .eval, .trace, .shadow, .simulate]

def name : Verb → String
  | .disasm => "disasm"
  | .eval => "eval"
  | .trace => "trace"
  | .shadow => "shadow"
  | .simulate => "simulate"

def ofName? (name : String) : Option Verb := all.find? fun v => v.name = name

def about : Verb → String
  | .disasm => "Print the demo scene's bytecode"
  | .eval => "Evaluate distance and normal at a point"
  | .trace => "Cast a ray and report the first surface"
  | .shadow => "Soft-shadow visibility of a light from a point"
  | .simulate => "Step a body through the scene and print its path"

/-- The options of a command besides the settings file. -/
def options : Verb → List Slot
  | .disasm | .eval => []
  | .trace => [.rayStart, .rayTarget]
  | .shadow => [.shaded, .light, .lightSize]
  | .simulate => [.position, .velocity, .timestep, .steps]

def argument? : Verb → Option Slot
  | .eval => some .point
  | _ => none

end Verb

/-! ## Grammars -/

/-- What may follow at some place of the command line. -/
structure Grammar where
  options : List Slot
  switches : List Switch
  argument : Option Slot
  /-- Whether a command may follow. -/
  commands : Bool

namespace Grammar

/-- In front of the command. -/
def root : Grammar := ⟨[.config], [.help, .version], none, true⟩

def option? (g : Grammar) (name : String) : Option Slot := g.options.find? fun s => s.name = name

def letter? (g : Grammar) (c : Char) : Option Slot := g.options.find? fun s => s.letter = some c

def switch? (g : Grammar) (name : String) : Option Switch :=
  g.switches.find? fun s => s.name = name

def switchLetter? (g : Grammar) (c : Char) : Option Switch :=
  g.switches.find? fun s => s.letter = c

/-- Whether a letter stands for an option or a switch. -/
def knowsLetter (g : Grammar) (c : Char) : Bool :=
  (g.letter? c).isSome || (g.switchLetter? c).isSome

end Grammar

/-- What may follow a command. -/
def Verb.grammar (v : Verb) : Grammar := ⟨v.options ++ [.config], [.help], v.argument?, false⟩

end SignedDistance.Command
