import BlackOilWells.Command

/-!
# The program

Reads the arguments and the scenario file, and prints what the command gives.
-/

namespace BlackOilWells

/-- The contents of a file, if it can be read. -/
def readFile? (path : String) : IO (Option String) := do
  try
    return some (← IO.FS.readFile path)
  catch _ =>
    return none

/-- Print, and give the exit code. -/
def Printout.print (p : Printout) : IO UInt32 := do
  IO.print p.output
  if !p.errors.isEmpty then IO.eprintln p.errors
  return p.exitCode.toUInt32

end BlackOilWells

open BlackOilWells in
/-- Run a command of the command line. -/
def main (args : List String) : IO UInt32 := do
  match Command.parse? args with
  | none => Command.usage.print
  | some c => (c.execute (← readFile? c.path)).print
