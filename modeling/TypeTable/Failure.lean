import TypeTable.Fault
import TypeTable.Table.References
import TypeTable.Yaml.Error

/-!
# Failures

Why a file does not give a table: it cannot be read, it is no document, its document is at fault, or
a reference dangles. A failure wraps its causes, and each of them has a wording that includes that
of its own cause.
-/

namespace TypeTable

/-- Why the content of a file is not known. -/
inductive ReadError where
  | notFound
  | isDirectory
  | notUnicode
  | other (reason : String)
  deriving DecidableEq, Repr

/-- The wording of a read error. -/
def ReadError.message : ReadError → String
  | .notFound => "No such file or directory (os error 2)"
  | .isDirectory => "Is a directory (os error 21)"
  | .notUnicode => "stream did not contain valid UTF-8"
  | .other reason => reason

/-- Why there is no document. -/
inductive LoadError where
  | unreadable (error : ReadError)
  | malformed (error : Yaml.Error)
  | empty
  deriving DecidableEq, Repr

namespace LoadError

/-- The wording of a load error. -/
def message : LoadError → String
  | .unreadable error => "IO error: " ++ error.message
  | .malformed error => "YAML error: " ++ error.message
  | .empty => "no YAML document found"

/-- The wordings of a load error and of what caused it. -/
def chain (error : LoadError) : List String :=
  error.message ::
    match error with
    | .unreadable cause => [cause.message]
    | .malformed cause => [cause.message]
    | .empty => []

end LoadError

/-- Why there is no table, or none that is complete. -/
inductive Failure where
  | load (error : LoadError)
  | invalid (fault : Fault)
  | dangling (reference : Dangling)
  deriving DecidableEq, Repr

namespace Failure

/-- The wording of a failure. -/
def message : Failure → String
  | .load error => "load error: " ++ error.message
  | .invalid fault => "validation error: " ++ fault.message
  | .dangling reference => reference.message

/-- The wordings of a failure and of what caused it. -/
def chain (failure : Failure) : List String :=
  failure.message ::
    match failure with
    | .load error => error.chain
    | .invalid fault => [fault.message]
    | .dangling _ => []

end Failure

end TypeTable
