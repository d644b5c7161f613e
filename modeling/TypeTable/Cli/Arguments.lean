/-!
# Command line arguments

An invocation is a command with its file and flags. A flag is given at most once in its place and in
full; `--` ends the flags. Anything else is a usage error.
-/

namespace TypeTable.Cli

/-- What is to be done with a file. -/
inductive Command where
  /-- List the definitions; with `strict`, check the references as well. -/
  | check (file : String) (strict : Bool)
  /-- Print the table as JSON. -/
  | dump (file : String) (compact : Bool)
  deriving DecidableEq, Repr

/-- The file of a command. -/
def Command.file : Command → String
  | .check file _ => file
  | .dump file _ => file

/-- A command, and whether it reports its progress. -/
structure Invocation where
  verbose : Bool
  command : Command
  deriving DecidableEq, Repr

/-- The arguments behind the name of a command, read so far. -/
structure Arguments where
  verbose : Bool := false
  /-- Whether the flag of the command was given. -/
  flagged : Bool := false
  file : Option String := none

namespace Arguments

/-- Takes an argument for the file, which must not be empty. -/
def setFile (args : Arguments) (file : String) : Option Arguments :=
  if args.file.isSome || file.isEmpty then none else some { args with file := some file }

/-- Reads arguments up to the end of the flags, and files behind it. -/
def read? (flag : String) (flagsEnded : Bool) (args : Arguments) :
    List String → Option Arguments
  | [] => some args
  | arg :: rest =>
    if flagsEnded then (args.setFile arg).bind (read? flag true · rest)
    else if arg == "--" then read? flag true args rest
    else if arg == "-v" || arg == "--verbose" then
      if args.verbose then none else read? flag false { args with verbose := true } rest
    else if arg == flag then
      if args.flagged then none else read? flag false { args with flagged := true } rest
    else if arg.toList.head? == some '-' && arg != "-" then none
    else (args.setFile arg).bind (read? flag false · rest)

end Arguments

/-- The command of a name, and the flag that it takes. -/
def commandOfName? : String → Option (String × (String → Bool → Command))
  | "check" => some ("--strict-refs", .check)
  | "dump" => some ("--compact", .dump)
  | _ => none

/-- The invocation that arguments state behind a flag that was given or not. -/
def invocationFrom? (verbose : Bool) : List String → Option Invocation
  | [] => none
  | name :: rest => do
    let (flag, command) ← commandOfName? name
    let args ← Arguments.read? flag false {} rest
    return ⟨verbose || args.verbose, command (← args.file) args.flagged⟩

/-- The invocation that arguments state. -/
def invocation? : List String → Option Invocation
  | "-v" :: rest | "--verbose" :: rest => invocationFrom? true rest
  | args => invocationFrom? false args

end TypeTable.Cli
