import Licensing.CommandLine.Run

/-!
# The program

Gathers what surrounds the run, runs the command and prints the outcome.
-/

namespace Licensing.CommandLine

/-- The text of a file, if it can be read. -/
def readFile? (path : String) : IO (Option String) := do
  try
    let text ← IO.FS.readFile path
    return some text
  catch _ => return none

/-- The variables of the process: names and values, each ended by a null character. -/
def environment : IO Settings.Environment := do
  let text := (← readFile? "/proc/self/environ").getD ""
  return (Text.segments '\x00' text.toList).filterMap fun entry ↦
    (Text.cutFirst '=' entry).map fun (name, value) ↦ (String.ofList name, String.ofList value)

/-- What surrounds this run. No database can be reached, and nothing that is printed depends on the
time. -/
def surroundings : IO Surroundings := do
  let files ← Settings.files.mapM readFile?
  return {
    environment := ← environment
    envFile := ← readFile? ".env"
    files := files.filterMap id
    connect := fun options ↦ some (Postgres.unreachable options)
    now := .ofSecond 0 0
    random := (← IO.getRandomBytes 65536).toList }

end Licensing.CommandLine

/-- Runs the program. -/
def main (arguments : List String) : IO UInt32 := do
  let outcome := Licensing.runProgram (← Licensing.CommandLine.surroundings) arguments
  for line in outcome.output do
    IO.println line
  for line in outcome.errors.getD ["Error: the arguments name no command"] do
    IO.eprintln line
  return UInt32.ofNat outcome.code
