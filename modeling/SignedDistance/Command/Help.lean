import SignedDistance.Command.Grammar

set_option autoImplicit false

/-! # Help screens

A screen says what a command is for, how it is called, and what it takes. -/

namespace SignedDistance.Command

/-- Rows of two columns, the left one as wide as its widest cell. -/
def table (rows : List (String × String)) : List String :=
  let width := rows.foldl (fun w (left, _) => max w left.length) 0
  rows.map fun (left, right) => "  " ++ left.pushn ' ' (width + 2 - left.length) ++ right

/-- A block of lines under a heading; nothing at all if there are no lines. -/
def headed (heading : String) (lines : List String) : List String :=
  if lines.isEmpty then [] else "" :: s!"{heading}:" :: lines

/-- How a table shows a slot. -/
def Slot.row (s : Slot) : String × String :=
  let left :=
    match s.role with
    | .argument => s.shown
    | .option none => s!"    {s.shown}"
    | .option (some c) => s!"-{c}, {s.shown}"
  let right :=
    match s.need with
    | .default text => s!"{s.about} [default: {text}]"
    | _ => s.about
  (left, right)

/-- How a table shows a switch. -/
def Switch.row (s : Switch) : String × String :=
  (s!"-{s.letter}, --{s.name}", s!"Print {s.name}")

/-- How a table shows the commands. -/
def commandRows : List (String × String) :=
  Verb.all.map (fun v => (v.name, v.about)) ++
    [("help", "Print this message or the help of the given subcommand(s)")]

/-- The options that have to be given. -/
def Grammar.required (g : Grammar) : List Slot := g.options.filter fun s => s.need = .required

/-- The lines of a screen. -/
def Grammar.screen (g : Grammar) (about call : String) : List String :=
  let words := call :: "[OPTIONS]" :: (g.required.map Slot.shown ++ g.argument.toList.map Slot.shown)
  let words := if g.commands then words ++ ["<COMMAND>"] else words
  [about, "", "Usage: " ++ " ".intercalate words] ++
    headed "Commands" (if g.commands then table commandRows else []) ++
    headed "Arguments" (table (g.argument.toList.map Slot.row)) ++
    headed "Options" (table (g.options.map Slot.row ++ g.switches.map Switch.row))

/-- Help on one command, or on all of them. -/
def helpScreen (verb : Option Verb) : String :=
  let lines :=
    match verb with
    | some v => v.grammar.screen v.about s!"carve {v.name}"
    | none => Grammar.root.screen "Query and simulate compiled SDF scenes" "carve"
  "\n".intercalate lines ++ "\n"

end SignedDistance.Command
