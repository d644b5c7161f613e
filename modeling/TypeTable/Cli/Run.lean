import TypeTable.Cli.Arguments
import TypeTable.Cli.Printing
import TypeTable.Log.Filter
import TypeTable.Table.Loading

/-!
# Running a command

A run loads the table of its file, checks what it is asked to, and then prints. What is logged of
its progress depends on the filter of the log, and nothing else does.
-/

namespace TypeTable.Cli

/-- The table of a file, or the text of the error that stopped a run. -/
def loadTable (file : String) (content : Except ReadError ByteArray) : Traced String Table :=
  (Table.ofFile file content).mapError fun failure =>
    ": ".intercalate (("failed to parse " ++ file) :: failure.chain)

/-- The check of the references of the table that a file holds. -/
def checkReferencesOf (file : String) (table : Table) : Traced String Unit := do
  Traced.report (.checking file)
  table.checkReferences.mapError Dangling.message

/-- Prints the definitions of a table with their kinds, and their number. -/
def printListing (table : Table) : Run Unit := do
  table.definitions.forM fun d => Run.printLine (d.name ++ ": " ++ word d.kind)
  Run.printLine (toString table.size ++ " definitions OK")

/-- Runs a command on the content of its file. -/
def run (content : Except ReadError ByteArray) : Command → Run Unit
  | .check file strict => do
    let table ← loadTable file content
    if strict then checkReferencesOf file table
    printListing table
  | .dump file compact => do
    let table ← loadTable file content
    let json := table.toJson
    Run.printLine (if compact then json.compact else json.spread)

/-- What a run leaves behind. -/
structure Outcome where
  exitCode : Nat
  stdout : String
  error : Option String
  log : List Log.Event

/-- The filter without a stated one: warnings, and with a verbose invocation all but the finest. -/
def usualFilter (verbose : Bool) : Log.Filter :=
  Log.Filter.upTo (if verbose then .debug else .warn)

/-- What an invocation leaves behind, with a filter for the log if one is stated. -/
def Invocation.outcome (invocation : Invocation) (filter : Option Log.Filter)
    (content : Except ReadError ByteArray) : Outcome :=
  let result := run content invocation.command
  let log := result.events.filter (filter.getD (usualFilter invocation.verbose)).admits
  match result.outcome with
  | .ok () => ⟨0, result.stdout, none, log⟩
  | .error text => ⟨1, result.stdout, some text, log⟩

end TypeTable.Cli
