import SignedDistance.Command.Demo
import SignedDistance.Command.Help
import SignedDistance.Command.Invocation
import SignedDistance.March.Light
import SignedDistance.March.Surface
import SignedDistance.Record.Settings

set_option autoImplicit false

/-! # Answering a command line

A reply is what a run writes and the status that it ends with: 0 for an answer, 1 for settings that
are of no use, 2 for a command line that is refused, and 101 for a simulation that leaves the range
of positions, whose rows up to there are kept. -/

namespace SignedDistance.Command

/-- What a run writes, and how it ends. -/
structure Reply where
  status : Nat
  output : String
  complaint : String
  deriving Inhabited

namespace Reply

/-- Lines of text, each with its end. -/
def lines (ls : List String) : String := String.join (ls.map (· ++ "\n"))

def answer (ls : List String) : Reply := ⟨0, lines ls, ""⟩

/-- The end of a run that cannot go on. -/
def failure (message : String) : Reply := ⟨1, "", s!"Error: {message}\n"⟩

end Reply

/-! ## Text of the answers -/

/-- A vector with four places. -/
def vectorText (v : Vec3) : String :=
  s!"({Single.fixedText 4 v.x}, {Single.fixedText 4 v.y}, {Single.fixedText 4 v.z})"

/-- A text moved to the right of a column. -/
def alignRight (width : Nat) (text : String) : String :=
  "".pushn ' ' (width - text.length) ++ text

/-- A row of the table of a simulation. -/
def row (step position velocity : String) : String :=
  s!"{alignRight 5 step}  {alignRight 30 position}  {alignRight 30 velocity}"

/-- The row of a body after some steps. -/
def bodyRow (body : Body) (step : Nat) : String :=
  row (toString step) (vectorText body.position.toVec3) (vectorText body.velocity)

/-- Where a ray has ended, and the normal there if it found a surface. -/
def hitLines (field : Field) (hit : Hit) : List String :=
  let travel := Single.fixedText 4 hit.travel
  if hit.hit then
    [s!"hit at {vectorText hit.point} after {travel} ({hit.steps} steps)",
      s!"normal: {vectorText (field.gradient hit.point)}"]
  else [s!"miss after {travel} ({hit.steps} steps)"]

/-! ## Queries -/

/-- A body at the start and after each of `n` steps, up to the first step that fails. -/
def bodies (integrator : Integrator) (field : Field) (dt : Float32) (body : Body) :
    Nat → List Body × Option Fault
  | 0 => ([body], none)
  | n + 1 =>
    match (integrator.step field body dt).result with
    | .error fault => ([body], some fault)
    | .ok next =>
      let (rest, fault) := bodies integrator field dt next n
      (body :: rest, fault)

/-- The table of a simulation. -/
def simulation (integrator : Integrator) (field : Field) (body : Body) (dt : Float32) (n : Nat) :
    Reply :=
  let (path, fault) := bodies integrator field dt body n
  let table := Reply.lines (row "step" "position" "velocity" :: path.mapIdx fun i b => bodyRow b i)
  match fault with
  | none => ⟨0, table, ""⟩
  | some fault => ⟨101, table, s!"\n{fault.message}\n"⟩

/-- Ask something of a scene. -/
def Query.reply (settings : Settings) (scene : Program) : Query → Reply
  | .disasm =>
    .answer [scene.text, s!"; {scene.leafCount} leaves, stack depth {scene.depth}"]
  | .eval point =>
    .answer [s!"distance: {Single.fixedText 6 (scene.distance point)}",
      s!"normal:   {vectorText (Field.gradient scene.distance point)}"]
  | .trace start target =>
    let (hit, _) := SignedDistance.trace settings.tracing scene.distance start target
    .answer (hitLines scene.distance hit)
  | .shadow start light size =>
    let visibility := lightTrace settings.tracing scene.distance start light size
    .answer [s!"visibility: {Single.fixedText 4 visibility}"]
  | .simulate position velocity dt steps =>
    match Integrator.checked settings.movement settings.tracing with
    | .error e => .failure e.message
    | .ok integrator =>
      simulation integrator scene.distance ⟨.ofVec3 position, velocity⟩ dt steps.toNat

/-! ## Runs -/

/-- The reply where reading has ended without a query. -/
def Stop.reply : Stop → Reply
  | .help verb => ⟨0, helpScreen verb, ""⟩
  | .version => .answer ["carve 0.3.0"]
  | .nothing => ⟨2, "", helpScreen none⟩
  | .refused e => ⟨2, "", s!"error: {e.message}\n"⟩

/-- The reply to a command line that has been read. `contents` is what its settings file holds, if
    one is named and could be read. -/
def Invocation.reply (i : Invocation) (contents : Option String) : Reply :=
  let settings : Except SettingsError Settings :=
    match i.settings with
    | none => .ok .default
    | some name => Settings.load name contents
  match settings, Demo.program with
  | .error e, _ => .failure e.message
  | .ok _, .error e => .failure e.message
  | .ok settings, .ok scene => i.query.reply settings scene

/-- The reply to a command line, where `file` gives the contents of the files that can be read. -/
def reply (words : List String) (file : String → Option String) : Reply :=
  match Invocation.ofWords words with
  | .error stop => stop.reply
  | .ok i => i.reply (i.settings.bind file)

end SignedDistance.Command
