import TypeTable.Definition.Basic

/-!
# Equality of types

Properties and required names are compared without regard to their order, enumerations with it.
-/

namespace TypeTable

/-- Whether two lists without repeats hold the same names. -/
def sameNames (as bs : List String) : Bool :=
  as.length == bs.length && as.all bs.contains

mutual

/-- Whether two shapes are equal. -/
def Shape.same : Shape → Shape → Bool
  | .int f, .int g => f == g
  | .number f, .number g => f == g
  | .bool, .bool => true
  | .string vs, .string ws => vs == ws
  | .array c t, .array d u => c == d && t.same u
  | .object ps rs, .object qs ss =>
    ps.length == qs.length && sameProperties ps qs && sameNames rs ss
  | _, _ => false
termination_by structural s => s

/-- Whether two type expressions are equal. -/
def TypeExpr.same : TypeExpr → TypeExpr → Bool
  | .named a, .named b => a == b
  | .inline h s, .inline k t => h == k && s.same t
  | _, _ => false
termination_by structural t => t

/-- Whether each property of one list is in the other with an equal type. -/
def sameProperties : List (String × TypeExpr) → List (String × TypeExpr) → Bool
  | [], _ => true
  | (name, type) :: rest, others =>
    (match others.lookup name with
      | some other => type.same other
      | none => false) && sameProperties rest others
termination_by structural properties => properties

end

/-- Whether two definitions are equal. -/
def Definition.same (d e : Definition) : Bool :=
  d.toHeader == e.toHeader && d.shape.same e.shape

end TypeTable
