import Pluck.Command

/-!
# The program

The outer layer of the command line: it passes the arguments and the standard input on, and writes what comes back.
-/

namespace Pluck

def readStandardInput : IO (Option ByteArray) := do
  let input ← IO.getStdin
  if ← input.isTty then return none
  return some (← input.readBinToEnd)

end Pluck

def main (arguments : List String) : IO UInt32 := do
  let outcome ← match Pluck.Command.ofArguments? arguments with
    | none => pure Pluck.Command.Outcome.misuse
    | some command => do
      let input ← if command.readsInput then Pluck.readStandardInput else pure none
      pure (command.run input)
  (← IO.getStdout).putStr outcome.output
  (← IO.getStderr).putStr outcome.errors
  return outcome.exitCode.toUInt32
