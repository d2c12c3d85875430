import ManagedPdb.Command

/-!
# The program

Reads the file, prints the report and, if it breaks off, the reason.
-/

open ManagedPdb

/-- Prints an error and gives the exit code for it. -/
def failWith (message : String) : IO UInt32 := do
  (← IO.getStderr).putStrLn ("Error: " ++ message)
  return 1

/-- Reports on the file that the arguments name. -/
def main (arguments : List String) : IO UInt32 := do
  match Command.addArguments {} arguments with
  | .error message => failWith message
  | .ok command =>
    match command.path with
    | none => failWith Command.usage
    | some path =>
      let image ← IO.FS.readBinFile path
      let outcome := command.report image
      (← IO.getStdout).putStr outcome.output
      match outcome.failure with
      | none => return 0
      | some message => failWith message
