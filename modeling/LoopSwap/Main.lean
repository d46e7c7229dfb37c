/-
**The program.**

The outer layer of the command: it reads the input file, runs the command and writes what the
outcome says.
-/

import LoopSwap.Cli.Command

set_option relaxedAutoImplicit false
set_option autoImplicit false

namespace LoopSwap

namespace Cli

/-- The text of a file that can be read. -/
def readInput? (path : String) : IO (Option String) := do
  try
    return some (← IO.FS.readFile path)
  catch _ =>
    return none

/-- Writes an outcome and gives its exit code. -/
def Outcome.write (o : Outcome) : IO UInt32 := do
  IO.print o.stdout
  IO.eprint o.stderr
  return o.exit.toUInt32

end Cli

end LoopSwap

open LoopSwap Cli

def main (arguments : List String) : IO UInt32 := do
  match Options.read arguments with
  | .error e =>
    IO.eprintln e.outcome.stderr
    return e.outcome.exit.toUInt32
  | .ok o => (runOptions o (← readInput? o.input)).write
