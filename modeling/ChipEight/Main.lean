import ChipEight.CommandLine.Run

/-!
# Command line

Reads the environment and the file that the arguments name, and prints the report. The random bytes
of a request that names no seed are fixed by a key from the system.

* `readProgram`, `readNamedProgram` — what a file holds;
* `Report.print` — a report on the two streams;
* `main` — the whole program.
-/

namespace ChipEight.CommandLine

/-- The variable that holds the text which the log is filtered by. -/
def logVariable : String :=
  "RUST_LOG"

/-- The bytes of a file, or why it could not be read. -/
def readProgram (path : String) : IO (Except FileError (Array UInt8)) := do
  try
    return .ok (← IO.FS.readBinFile path).data
  catch e =>
    match e with
    | .noFileOrDirectory .. => return .error .notFound
    | _ => return .error (.other e.toString)

/-- The file that arguments name; arguments that make no request name none. -/
def readNamedProgram (arguments : List String) : IO (Except FileError (Array UInt8)) :=
  match Options.read arguments with
  | .ok o => readProgram o.path
  | .error _ => pure (.error .notFound)

/-- Prints a report: the output to one stream, the log and what is said about the end to the
other. -/
def Report.print (r : Report) : IO Unit := do
  for record in r.log do
    IO.eprintln ("[" ++ record.level.name ++ " " ++ record.target ++ "] " ++ record.message)
  IO.print r.output
  match r.text with
  | some text => IO.eprintln text
  | none => pure ()

end ChipEight.CommandLine

open ChipEight.CommandLine in
/-- Runs the program that the arguments name. -/
def main (arguments : List String) : IO UInt32 := do
  let logSetting ← IO.getEnv logVariable
  let entropy ← IO.getRandomBytes 32
  let file ← readNamedProgram arguments
  let report := run arguments logSetting (ChipEight.Random.keyOfBytes entropy) fun _ => file
  report.print
  return UInt32.ofNat report.code
