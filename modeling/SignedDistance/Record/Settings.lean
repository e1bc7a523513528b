import SignedDistance.Json.Reader
import SignedDistance.Record.Datum

set_option autoImplicit false

/-! # Settings files

A settings file is a JSON record with one part for the marching queries and one for movement. A
part that is not there takes its defaults. -/

namespace SignedDistance

/-- What a settings file says. -/
structure Settings where
  tracing : TraceConfig
  movement : MovementConfig

/-- Why a settings file is of no use. -/
inductive SettingsError where
  | unreadable (name : String)
  | malformed (name : String)
  | outOfRange (e : ParameterError)

def SettingsError.message : SettingsError → String
  | .unreadable name => s!"Failed to read settings from {name}"
  | .malformed name => s!"Failed to parse settings in {name}"
  | .outOfRange e => e.message

namespace Settings

/-- The settings that hold without a file. -/
def default : Settings := ⟨.default, .default⟩

open Json in
def ofJson? (json : Json) : Option Settings :=
  match json.recordFields? ["trace", "movement"] with
  | some [tracing, movement] => do
    return {
      tracing := ← fieldOr .default TraceConfig.ofJson? tracing
      movement := ← fieldOr .default MovementConfig.ofJson? movement }
  | _ => none

/-- The first value that is out of range is reported; those of the marching queries are looked at
    first. -/
def validate (s : Settings) : Except ParameterError Unit := do
  s.tracing.validate
  s.movement.validate

/-- The settings in a file of the given name, from its contents if it could be read. -/
def load (name : String) (contents : Option String) : Except SettingsError Settings :=
  match contents with
  | none => .error (.unreadable name)
  | some text =>
    match (Json.parse? text).bind ofJson? with
    | none => .error (.malformed name)
    | some settings =>
      match settings.validate with
      | .ok () => .ok settings
      | .error e => .error (.outOfRange e)

end Settings

end SignedDistance
