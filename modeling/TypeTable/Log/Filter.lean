import TypeTable.Log.Event

/-!
# Log filters

A filter admits events by their level and by the part of the program they belong to. It is stated
by directives with commas between them, each a level, or the start of the names of parts and a level
behind an equals sign.
-/

namespace TypeTable.Log

/-- A directive is about the parts whose names start with `target`. Of these it admits the events up
to `level`; without a level it admits none. -/
structure Directive where
  target : String := ""
  level : Option Level
  deriving DecidableEq, Repr

namespace Directive

/-- Whether a directive is about the part that an event belongs to. -/
def covers (directive : Directive) (event : Event) : Bool :=
  directive.target.toList.isPrefixOf event.target.toList

/-- Whether a directive admits an event of a part that it is about. -/
def admits (directive : Directive) (event : Event) : Bool :=
  match directive.level with
  | none => false
  | some level => event.level.rank ≤ level.rank

end Directive

/-- Directives, of which the one that says most about the part of an event decides about it. -/
structure Filter where
  directives : List Directive
  deriving DecidableEq, Repr

namespace Filter

/-- The directive that decides about an event: of those about its part the one with the longest
target, and of two with one target the later. -/
def decisive? (filter : Filter) (event : Event) : Option Directive :=
  filter.directives.foldl (fun found directive =>
    if directive.covers event && found.all (·.target.length ≤ directive.target.length) then
      some directive
    else found) none

/-- Whether a filter admits an event. One that no directive is about is not admitted. -/
def admits (filter : Filter) (event : Event) : Bool :=
  (filter.decisive? event).any (·.admits event)

/-- The filter that admits the events of all parts up to a level. -/
def upTo (level : Level) : Filter :=
  ⟨[{ level := some level }]⟩

end Filter

/-! ## Stated filters -/

/-- The greatest level that a word admits; `off` admits none. Case does not count. -/
def levelOfText? (text : String) : Option (Option Level) :=
  match text.toLower with
  | "off" => some none
  | "error" => some (some .error)
  | "warn" => some (some .warn)
  | "info" => some (some .info)
  | "debug" => some (some .debug)
  | "trace" => some (some .trace)
  | _ => none

/-- The directive that a text states. -/
def Directive.ofText? (text : String) : Option Directive :=
  match levelOfText? text with
  | some level => some { level }
  | none =>
    let chars := text.toList
    match chars.dropWhile (· != '=') with
    | '=' :: level =>
      (levelOfText? (String.ofList level)).map fun level =>
        ⟨String.ofList (chars.takeWhile (· != '=')), level⟩
    | _ => none

/-- The filter that a text states, if all of its directives can be read. -/
def Filter.ofText? (text : String) : Option Filter :=
  (((text.splitOn ",").filter (· != "")).mapM Directive.ofText?).map Filter.mk

end TypeTable.Log
