import Estate.CommandLine

/-!
# The program

Reads the arguments and the settings, and prints what comes of them.
-/

open Estate

/-- Runs an invocation with the settings that it names. -/
def runInvocation (i : Invocation) : IO Outcome := do
  match i.config with
  | none => return i.run none
  | some file =>
    try
      return i.run (some (← IO.FS.readFile file))
    catch _ => return .failure

/-- The entry point. -/
def main (arguments : List String) : IO UInt32 := do
  let outcome ←
    match Invocation.parse arguments with
    | some i => runInvocation i
    | none => pure .usage
  IO.print outcome.output
  return outcome.code
