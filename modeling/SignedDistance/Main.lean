import SignedDistance.Command.Reply

set_option autoImplicit false

/-! # The program

The command line, the settings file and the two output streams; all else is decided by
`Command.reply`. -/

open SignedDistance.Command in
/-- Read the command line and the settings file that it names, and write the reply. -/
def main (words : List String) : IO UInt32 := do
  let contents ←
    match Invocation.ofWords words with
    | .ok { settings := some name, .. } => some <$> IO.FS.readFile name <|> pure none
    | _ => pure none
  let reply := reply words fun _ => contents
  (← IO.getStdout).putStr reply.output
  (← IO.getStderr).putStr reply.complaint
  return .ofNat reply.status
