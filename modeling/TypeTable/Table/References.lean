import TypeTable.Table.Basic

/-!
# References

A reference is dangling when the name it refers to is not defined. References are visited in the
order of the definitions, and inside a definition in the order of its children, those of a type
written in place before the next child.
-/

namespace TypeTable

/-- A reference to a name that is not defined, and the name of the type that holds it. -/
structure Dangling where
  reference : String
  holder : String
  deriving DecidableEq, Repr

/-- A dangling reference as it is reported. -/
def Dangling.message (d : Dangling) : String :=
  d.holder ++ ": reference '#" ++ d.reference ++ "' does not name any definition"

mutual

/-- The first dangling reference in the shape of a type of a name. -/
def Shape.firstDangling? (defined : String → Bool) (holder : String) : Shape → Option Dangling
  | .array _ element => element.firstDangling? defined holder
  | .object properties _ => firstDanglingProperty? defined holder properties
  | _ => none
termination_by structural shape => shape

/-- The first dangling reference in a type expression that a type of a name holds. -/
def TypeExpr.firstDangling? (defined : String → Bool) (holder : String) :
    TypeExpr → Option Dangling
  | .named name => if defined name then none else some ⟨name, holder⟩
  | .inline header shape => shape.firstDangling? defined header.name
termination_by structural type => type

/-- The first dangling reference in the properties of a type of a name. -/
def firstDanglingProperty? (defined : String → Bool) (holder : String) :
    List (String × TypeExpr) → Option Dangling
  | [] => none
  | (_, type) :: rest =>
    (type.firstDangling? defined holder).or (firstDanglingProperty? defined holder rest)
termination_by structural properties => properties

end

/-- The first dangling reference of a table. -/
def Table.firstDangling? (table : Table) : Option Dangling :=
  table.definitions.findSome? fun d => d.shape.firstDangling? table.contains d.name

/-- Succeeds if every reference of a table names a definition. -/
def Table.checkReferences (table : Table) : Except Dangling Unit :=
  match table.firstDangling? with
  | some dangling => .error dangling
  | none => .ok ()

end TypeTable
