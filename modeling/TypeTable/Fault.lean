/-!
# Faults of a document

What can be wrong with a document, apart from its syntax. A fault is shown behind the name of the
definition it was found in (`Fault.message`).
-/

namespace TypeTable

/-- What is wrong, by the texts that the message shows. -/
inductive Fault.Cause where
  | noDefinitions
  | definitionsNotMapping
  | definitionNameNotText (found : String)
  | definitionNotMapping (found : String)
  | definedTwice (name : String)
  | fieldMissing (field : String)
  | wordUnknown (field found : String)
  | fieldUnknown (found : String)
  | descriptionNotText
  | enumNotTexts
  | enumEmpty
  | enumRepeated (value : String)
  | itemsMissing
  | propertiesNotMapping
  | propertyNameNotText (found : String)
  | notAType (label found : String)
  | requiredNotNames
  | requiredUndeclared (name : String)
  deriving DecidableEq, Repr

/-- The wording of a cause. -/
def Fault.Cause.message : Fault.Cause → String
  | .noDefinitions => "cannot find 'definitions' block in the root of the document"
  | .definitionsNotMapping => "'definitions' block must be a mapping"
  | .definitionNameNotText found => "definition name must be a string, got " ++ found
  | .definitionNotMapping found => "definition must be a mapping, got " ++ found
  | .definedTwice name => name ++ " is defined more than once"
  | .fieldMissing field => "field '" ++ field ++ "' is required"
  | .wordUnknown field found => "field " ++ field ++ " has invalid value '" ++ found ++ "'"
  | .fieldUnknown found => "unknown field '" ++ found ++ "'"
  | .descriptionNotText => "description must be a string"
  | .enumNotTexts => "enum must be a list of strings"
  | .enumEmpty => "empty enum"
  | .enumRepeated value => "duplicate enum value '" ++ value ++ "'"
  | .itemsMissing => "array requires field items"
  | .propertiesNotMapping => "properties must be a non-empty mapping"
  | .propertyNameNotText found => "property name must be a string, got " ++ found
  | .notAType label found => label ++ " must be an object or a reference, got " ++ found
  | .requiredNotNames => "'required' must be a list of property names"
  | .requiredUndeclared name => "required property '" ++ name ++ "' is not declared in properties"

/-- A cause and the name of the definition it was found in, if it belongs to one. -/
structure Fault where
  cause : Fault.Cause
  context : Option String
  deriving DecidableEq, Repr

namespace Fault

/-- A message behind the context it belongs to; no context and the empty one are not shown. -/
def inContext (context : Option String) (message : String) : String :=
  match context with
  | none => message
  | some name => if name.isEmpty then message else name ++ ": " ++ message

/-- A fault as it is shown. -/
def message (fault : Fault) : String :=
  inContext fault.context fault.cause.message

end Fault

/-- A cause found in the definition of a name. -/
def Fault.Cause.within (cause : Fault.Cause) (name : String) : Fault :=
  ⟨cause, some name⟩

/-- A cause that belongs to no definition. -/
def Fault.Cause.alone (cause : Fault.Cause) : Fault :=
  ⟨cause, none⟩

end TypeTable
