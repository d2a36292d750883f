import ApiDescription.CommandLine.Program

/-!
# The command

Runs the program on the files of the machine.
-/

namespace ApiDescription.CommandLine

/-- The files of the machine. -/
def machineFiles : FileAccess IO where
  read path := try return some (← IO.FS.readFile path) catch _ => return none
  write path text := try IO.FS.writeFile path text; return true catch _ => return false

end ApiDescription.CommandLine

open ApiDescription.CommandLine in
/-- Runs the program on its arguments. -/
def main (arguments : List String) : IO UInt32 := do
  let outcome ← program machineFiles arguments
  IO.print outcome.stdout
  IO.eprint outcome.stderr
  return outcome.exitCode
