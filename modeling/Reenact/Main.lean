/-
  The program: reads the capture file, and prints the snippets and the notices of a run.
-/
import Reenact.CommandLine

namespace Reenact

namespace CommandLine

/-- Looks for a file. -/
def find (file : String) : IO Found := do
  try
    return .contents (← IO.FS.readBinFile file)
  catch
    | .noFileOrDirectory .. => return .nothing
    | _ => return .noFile

/-- A line of the error stream; the last one says how long the run took. -/
def printNotice (start : Nat) (n : Notice) : IO Unit := do
  match n with
  | .finished => IO.eprintln s!"{n.line} {(← IO.monoMsNow) - start}ms"
  | _ => IO.eprintln n.line

end CommandLine

end Reenact

open Reenact.CommandLine in
def main (arguments : List String) : IO UInt32 := do
  let file := fileName arguments
  let found ← find file
  let start ← IO.monoMsNow
  let traced := (← IO.getEnv traceVariable) == some "1"
  let outcome := run file found traced
  IO.print outcome.output
  outcome.notices.forM (printNotice start)
  return if outcome.succeeded then 0 else 1
