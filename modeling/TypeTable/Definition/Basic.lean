import TypeTable.Kind

/-!
# Definitions

A definition gives a name to a type. The elements of an array and the properties of an object are
type expressions: the name of another definition, or a type written in place, which has a name of
its own too.
-/

namespace TypeTable

/-- What every type has: a name, and a description if one was given. -/
structure Header where
  name : String
  description : Option String := none
  deriving DecidableEq, Repr, Inhabited

mutual

/-- The part of a type that depends on its kind. -/
inductive Shape where
  | int (format : IntFormat)
  | number (format : NumberFormat)
  | bool
  | string (values : Option (List String))
  | array (container : Container) (element : TypeExpr)
  | object (properties : List (String × TypeExpr)) (required : List String)

/-- The type of an element or a property. -/
inductive TypeExpr where
  /-- The definition of a name, which need not exist. -/
  | named (name : String)
  /-- A type written in place. -/
  | inline (header : Header) (shape : Shape)

end

instance : Inhabited Shape := ⟨.bool⟩

/-- A type under its name. -/
structure Definition extends Header where
  shape : Shape
  deriving Inhabited

/-- The kind of a shape. -/
def Shape.kind : Shape → Kind
  | .int _ => .int
  | .number _ => .number
  | .bool => .bool
  | .string _ => .string
  | .array .. => .array
  | .object .. => .object

/-- The type expressions that a shape holds itself, in order. -/
def Shape.children : Shape → List TypeExpr
  | .array _ element => [element]
  | .object properties _ => properties.map (·.2)
  | _ => []

namespace Definition

/-- The kind of a defined type. -/
def kind (d : Definition) : Kind :=
  d.shape.kind

/-- The type expressions that a definition holds itself, in order. -/
def children (d : Definition) : List TypeExpr :=
  d.shape.children

/-- Whether a property is required; only the types of objects have properties. -/
def requires? (d : Definition) (property : String) : Option Bool :=
  match d.shape with
  | .object _ required => some (required.contains property)
  | _ => none

/-- What an enumeration says of a value; `none` where all strings are values. -/
def enumerates? (d : Definition) (value : String) : Option Bool :=
  match d.shape with
  | .string (some values) => some (values.contains value)
  | _ => none

/-- The type expression that stands for a definition in place. -/
def toInline (d : Definition) : TypeExpr :=
  .inline d.toHeader d.shape

end Definition

namespace TypeExpr

/-- The type written in place. -/
def inline? : TypeExpr → Option Definition
  | .inline header shape => some ⟨header, shape⟩
  | .named _ => none

/-- The name of the definition referred to. -/
def reference? : TypeExpr → Option String
  | .named name => some name
  | .inline .. => none

end TypeExpr

/-- The name of the element type that an array writes in place. -/
def itemsName (array : String) : String :=
  array ++ "Items"

end TypeTable
