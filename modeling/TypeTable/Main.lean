import TypeTable.Cli.Run

/-!
# The command line program

Reads the file that the arguments name, runs their command and prints what the run leaves behind.
The filter of the log is taken from the environment.
-/

namespace TypeTable

/-- The content of a file. -/
def readContent (path : String) : IO (Except ReadError ByteArray) := do
  try
    return .ok (← IO.FS.readBinFile path)
  catch
    | .noFileOrDirectory .. => return .error .notFound
    | .inappropriateType .. => return .error .isDirectory
    | error => return .error (.other (toString error))

end TypeTable

open TypeTable in
def main (args : List String) : IO UInt32 := do
  match Cli.invocation? args with
  | none =>
    IO.eprintln "usage: typegen [-v] (check [--strict-refs] | dump [--compact]) FILE"
    return 2
  | some invocation =>
    let filter := (← IO.getEnv "RUST_LOG").bind Log.Filter.ofText?
    let outcome := invocation.outcome filter (← readContent invocation.command.file)
    for event in outcome.log do
      IO.eprintln event.line
    IO.print outcome.stdout
    if let some error := outcome.error then
      IO.eprintln ("Error: " ++ error)
    return outcome.exitCode.toUInt32
