import TypeTable.Definition.Basic
import TypeTable.Json.Basic

/-!
# Definitions as JSON

A type is an object: its kind, its name, its description if it has one, and what its kind adds.
-/

namespace TypeTable

/-- The members that a header gives. -/
def Header.members (header : Header) : List (String × Json) :=
  ("name", .text header.name) ::
    match header.description with
    | some description => [("description", .text description)]
    | none => []

/-- A list of texts. -/
def Json.texts (values : List String) : Json :=
  .list (values.map .text)

mutual

/-- The members that a shape gives besides its kind. -/
def Shape.members : Shape → List (String × Json)
  | .int format => [("format", .text (word format))]
  | .number format => [("format", .text (word format))]
  | .bool => []
  | .string none => []
  | .string (some values) => [("enum", .texts values)]
  | .array container element =>
    [("array_type", .text (word container)), ("items", element.toJson)]
  | .object properties required =>
    [("properties", .object (propertyMembers properties)), ("required", .texts required)]
termination_by structural shape => shape

/-- A type expression says whether it is written in place or refers to a name. -/
def TypeExpr.toJson : TypeExpr → Json
  | .named name => .object [("reference", .text name)]
  | .inline header shape =>
    .object [("owned", .object (("type", .text (word shape.kind)) ::
      (header.members ++ shape.members)))]
termination_by structural type => type

/-- The members that properties give. -/
def propertyMembers : List (String × TypeExpr) → List (String × Json)
  | [] => []
  | (name, type) :: rest => (name, type.toJson) :: propertyMembers rest
termination_by structural properties => properties

end

/-- A header on its own. -/
def Header.toJson (header : Header) : Json :=
  .object header.members

/-- A definition as JSON. -/
def Definition.toJson (d : Definition) : Json :=
  .object (("type", .text (word d.kind)) :: (d.toHeader.members ++ d.shape.members))

end TypeTable
