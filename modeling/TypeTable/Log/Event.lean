import TypeTable.Kind

/-!
# Events

What a run reports about its progress. An event has a level of importance, the part of the
program that it belongs to, and a message.
-/

namespace TypeTable.Log

/-- How important an event is. -/
inductive Level where
  | error
  | warn
  | info
  | debug
  | trace
  deriving DecidableEq, Repr

namespace Level

/-- Levels by number, the most important first. -/
def rank : Level → Nat
  | .error => 1
  | .warn => 2
  | .info => 3
  | .debug => 4
  | .trace => 5

/-- The name of a level in a log line. -/
def label : Level → String
  | .error => "ERROR"
  | .warn => "WARN"
  | .info => "INFO"
  | .debug => "DEBUG"
  | .trace => "TRACE"

end Level

/-- Something that happened. -/
inductive Event where
  /-- A file is about to be read. -/
  | loading (path : String)
  /-- The field of a definition refers to a name. -/
  | refers (owner label target : String)
  /-- The field of a definition holds a type written in place. -/
  | holds (owner label : String) (kind : Kind) (name : String)
  /-- A definition has been read. -/
  | defined (kind : Kind) (name : String)
  /-- A document has been read. -/
  | finished (count : Nat)
  /-- The references of a document are about to be checked. -/
  | checking (path : String)
  deriving DecidableEq, Repr

namespace Event

/-- The importance of an event. -/
def level : Event → Level
  | .loading _ | .defined .. | .checking _ => .debug
  | .refers .. | .holds .. => .trace
  | .finished _ => .info

/-- The part of the program that an event belongs to. -/
def target : Event → String
  | .loading _ => "typegen_schema::loader"
  | .refers .. | .holds .. => "typegen_schema::item_ref"
  | .defined .. | .finished _ => "typegen_schema::parser"
  | .checking _ => "typegen"

/-- The wording of an event. -/
def message : Event → String
  | .loading path => "Loading " ++ path
  | .refers owner label target => owner ++ ": " ++ label ++ " references '" ++ target ++ "'"
  | .holds owner label kind name =>
    owner ++ ": " ++ label ++ " is inline " ++ word kind ++ " '" ++ name ++ "'"
  | .defined kind name => "Parsed " ++ word kind ++ " definition '" ++ name ++ "'"
  | .finished count => "Parsed " ++ toString count ++ " definitions"
  | .checking path => "Checking references in " ++ path

/-- An event as a line of a log. -/
def line (event : Event) : String :=
  event.level.label ++ " " ++ event.target ++ ": " ++ event.message

end Event

end TypeTable.Log
