import ManagedPdb.DebugInfo.Decode
import ManagedPdb.Report

/-!
# The command line

The program reports on one file.  An option leaves tokens as they are stored, and another one
chooses a method by its token.
-/

namespace ManagedPdb

structure Command where
  path : Option String := none
  /-- Whether to leave the token remap table alone. -/
  rawTokens : Bool := false
  token : Option String := none
  deriving DecidableEq, Repr

namespace Command

/-- The value of an option that is given as `--token=value`. -/
def tokenValue? (argument : String) : Option String :=
  let mark := "--token=".toList
  let chars := argument.toList
  if mark.isPrefixOf chars then some (String.ofList (chars.drop mark.length)) else none

def usage : String := "usage: mspdb-debug [--raw-tokens] [--token TOKEN] PDB"

/-- Adds the arguments to what has been asked for already. -/
def addArguments (command : Command) : List String → Except String Command
  | [] => .ok command
  | "--raw-tokens" :: rest => addArguments { command with rawTokens := true } rest
  | ["--token"] => .error usage
  | "--token" :: value :: rest => addArguments { command with token := some value } rest
  | argument :: rest =>
    match tokenValue? argument with
    | some value => addArguments { command with token := some value } rest
    | none =>
      if command.path.isSome then .error usage
      else addArguments { command with path := some argument } rest

def report (command : Command) (image : ByteArray)
    (idText : Guid → UInt32 → String := debugIdText) : Report.Outcome :=
  let options : DecodeOptions := { applyTokenRemap := !command.rawTokens }
  match DebugInfo.decodeWith options image with
  | .ok info => Report.ofInfo info command.token idText
  | .error error => ⟨"", some error.message⟩

end Command

end ManagedPdb
