import BondingCurve.Command.DesignCommand

/-!
# The program

Runs the design command on the arguments of the process. A failure is reported on the error output.
-/

open BondingCurve

/-- Prints the outcome of the design command and returns its exit code. -/
def main (arguments : List String) : IO UInt32 := do
  match (Command.run arguments).result with
  | .ok (.printed output summary) =>
    IO.print output
    IO.eprint summary
    return 0
  | .ok (.exit code) => return code.toUInt32
  | .error e =>
    IO.eprintln e.message
    return 1
