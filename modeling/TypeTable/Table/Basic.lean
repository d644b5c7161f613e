import TypeTable.Definition.Dump
import TypeTable.Definition.Equality
import TypeTable.Fault

/-!
# Tables of definitions

A table holds definitions in order, no two of one name. A definition whose name is taken is
refused, so the first of a name stays.
-/

namespace TypeTable

/-- Definitions in order, no two of one name. -/
structure Table where
  definitions : List Definition
  nodup_names : (definitions.map (·.name)).Nodup

namespace Table

@[ext] protected theorem ext {s t : Table} (h : s.definitions = t.definitions) : s = t := by
  cases s; cases t; simp_all

/-- The table without definitions. -/
def empty : Table := ⟨[], List.nodup_nil⟩

instance : Inhabited Table := ⟨empty⟩

/-- The names of the definitions in order. -/
def names (table : Table) : List String :=
  table.definitions.map (·.name)

/-- The number of definitions. -/
def size (table : Table) : Nat :=
  table.definitions.length

/-- Whether there are no definitions. -/
def isEmpty (table : Table) : Bool :=
  table.definitions.isEmpty

/-- The definition of a name. -/
def get? (table : Table) (name : String) : Option Definition :=
  table.definitions.find? (·.name == name)

/-- Whether a name is defined. -/
def contains (table : Table) (name : String) : Bool :=
  table.names.contains name

/-- The type that a type expression stands for: the type written in place, or the definition of
the name referred to. -/
def resolve? (table : Table) : TypeExpr → Option Definition
  | .named name => table.get? name
  | .inline header shape => some ⟨header, shape⟩

/-- The type reached from a definition by steps to children, each given by its position. -/
def follow? (table : Table) (d : Definition) : List Nat → Option Definition
  | [] => some d
  | position :: rest =>
    match d.children[position]? with
    | none => none
    | some child => (table.resolve? child).bind (table.follow? · rest)

theorem nodup_names_append {table : Table} {d : Definition} (h : table.contains d.name = false) :
    ((table.definitions ++ [d]).map (·.name)).Nodup := by
  have hnot : d.name ∉ table.definitions.map (·.name) := by
    simpa [contains, names] using h
  rw [List.map_append, List.nodup_append]
  refine ⟨table.nodup_names, by simp, ?_⟩
  intro name hname other hother heq
  simp only [List.map_cons, List.map_nil, List.mem_singleton] at hother
  exact hnot (hother ▸ heq ▸ hname)

/-- A table with one more definition, unless its name is taken. -/
def insert (table : Table) (d : Definition) : Except Fault Table :=
  if h : table.contains d.name then .error (Fault.Cause.definedTwice d.name).alone
  else .ok ⟨table.definitions ++ [d], nodup_names_append (by simpa using h)⟩

/-- Whether two tables have equal definitions, in any order. -/
def same (s t : Table) : Bool :=
  s.size == t.size &&
    s.definitions.all fun d =>
      match t.get? d.name with
      | some e => d.same e
      | none => false

/-- A table as a JSON object, a member for each definition. -/
def toJson (table : Table) : Json :=
  .object (table.definitions.map fun d => (d.name, d.toJson))

end Table

end TypeTable
