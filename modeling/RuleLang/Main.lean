import RuleLang.CommandLine

/-!
# The program

Hands the arguments of the command line to `run`, prints what it says at the verbosity that the environment asks for, and ends
with its exit code. No settings are loaded from a `.env` file, so there is no message that they could not be.
-/

open RuleLang

/-- Runs the rule in the first argument. The verbosity is named by the variable `LOG_LEVEL`, and not by the variable that
`env_logger` reads by default: what stands there is the name of one verbosity for the whole program, with no filters for its parts,
and where anything else stands the verbosity is the standard one. -/
def main (arguments : List String) : IO UInt32 := do
  let verbosity := ((← IO.getEnv "LOG_LEVEL").bind Verbosity.ofName?).getD .standard
  let run := run arguments
  IO.eprint (run.diagnostics verbosity)
  IO.print run.output
  return run.exitCode
