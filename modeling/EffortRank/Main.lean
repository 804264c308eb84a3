import EffortRank.Cli.Run

/-!
# The program

Runs the commands on the files, the input and the environment of the process.
-/

namespace EffortRank

namespace Cli

def fileError : IO.Error → FileError
  | .noFileOrDirectory .. => .missing
  | .inappropriateType _ code _ => if code = 21 then .directory else .notDirectory
  | .invalidArgument _ 36 _ => .nameTooLong
  | .resourceExhausted _ 28 _ => .noSpace
  | .permissionDenied .. => .other "Permission denied (os error 13)"
  | e => .other (toString e)

def attempt {α : Type} (action : IO α) : IO (Except FileError α) := do
  try
    return .ok (← action)
  catch e => return .error (fileError e)

def processHost : Host IO where
  readFile path := attempt (IO.FS.readFile path)
  readInput := attempt do
    let input ← IO.getStdin
    input.readToEnd
  fileExists path := do
    match ← attempt (IO.FS.readFile path) with
    | .error .missing => return false
    | _ => return true
  writeFile path text := attempt (IO.FS.writeFile path text)
  lookupVariable name := IO.getEnv name

end Cli

end EffortRank

def main (args : List String) : IO UInt32 := do
  let outcome ← EffortRank.Cli.run EffortRank.Cli.processHost args
  (← IO.getStdout).putStr outcome.printed.output
  (← IO.getStderr).putStr outcome.printed.errors
  return outcome.exitCode.toUInt32
