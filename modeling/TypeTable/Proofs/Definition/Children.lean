import TypeTable.Definition.Basic

/-!
# What types hold

`type_induction` is the induction over types: a shape comes after its children, and a type written
in place after its shape. `Shape.Holds` is what a shape holds at any depth, through the types
written in place; `Shape.references` lists the references among it.
-/

namespace TypeTable

theorem sizeOf_lt_of_mem_children {shape : Shape} {child : TypeExpr} (h : child ∈ shape.children) :
    sizeOf child < sizeOf shape := by
  cases shape with
  | array container element =>
    rw [List.mem_singleton.mp h, Shape.array.sizeOf_spec]
    omega
  | object properties required =>
    obtain ⟨property, hproperty, rfl⟩ := List.mem_map.mp h
    have hlt := List.sizeOf_lt_of_mem hproperty
    have heq : sizeOf property = 1 + sizeOf property.1 + sizeOf property.2 := rfl
    rw [Shape.object.sizeOf_spec]
    omega
  | _ => cases h

/-- Induction over shapes and type expressions. -/
theorem type_induction {OfShape : Shape → Prop} {OfType : TypeExpr → Prop}
    (shape : ∀ shape, (∀ child ∈ shape.children, OfType child) → OfShape shape)
    (named : ∀ name, OfType (.named name))
    (inline : ∀ header shape, OfShape shape → OfType (.inline header shape)) :
    (∀ shape, OfShape shape) ∧ ∀ type, OfType type := by
  have shapes : ∀ s, OfShape s := by
    intro s
    induction hsize : sizeOf s using Nat.strongRecOn generalizing s with
    | ind size ih =>
      subst hsize
      refine shape s fun child hchild => ?_
      have hlt := sizeOf_lt_of_mem_children hchild
      cases child with
      | named name => exact named name
      | inline header inner =>
        rw [TypeExpr.inline.sizeOf_spec] at hlt
        exact inline header inner (ih (sizeOf inner) (by omega) inner rfl)
  refine ⟨shapes, fun type => ?_⟩
  cases type with
  | named name => exact named name
  | inline header s => exact inline header s (shapes s)

/-- What a shape holds at any depth: its children, and what those written in place hold. -/
inductive Shape.Holds : Shape → TypeExpr → Prop
  | child {shape : Shape} {type : TypeExpr} : type ∈ shape.children → shape.Holds type
  | inner {shape inner : Shape} {header : Header} {type : TypeExpr} :
      .inline header inner ∈ shape.children → inner.Holds type → shape.Holds type

mutual

/-- The references that the shape of a type of a name holds at any depth, each with the name of the
type that holds it: those of a child before those of the next one. -/
def Shape.references (holder : String) (shape : Shape) : List (String × String) :=
  shape.children.attach.flatMap fun child => child.1.references holder
termination_by sizeOf shape
decreasing_by exact sizeOf_lt_of_mem_children child.2

/-- The references in a type expression that a type of a name holds. -/
def TypeExpr.references (holder : String) : TypeExpr → List (String × String)
  | .named name => [(name, holder)]
  | .inline header shape => shape.references header.name
termination_by type => sizeOf type

end

theorem Shape.references_eq (holder : String) (shape : Shape) :
    shape.references holder = shape.children.flatMap (·.references holder) := by
  rw [Shape.references, List.flatMap_subtype fun _ _ => rfl, List.unattach_attach]

theorem Shape.holds_iff {shape : Shape} {type : TypeExpr} :
    shape.Holds type ↔ type ∈ shape.children ∨
      ∃ header inner, .inline header inner ∈ shape.children ∧ inner.Holds type := by
  constructor
  · intro h
    cases h with
    | child hmem => exact .inl hmem
    | inner hmem hinner => exact .inr ⟨_, _, hmem, hinner⟩
  · intro h
    rcases h with hmem | ⟨header, inner, hmem, hinner⟩
    · exact .child hmem
    · exact .inner hmem hinner

theorem exists_mem_references_iff (name : String) :
    (∀ (shape : Shape) holder,
      (∃ owner, (name, owner) ∈ shape.references holder) ↔ shape.Holds (.named name)) ∧
    ∀ (type : TypeExpr) holder, (∃ owner, (name, owner) ∈ type.references holder) ↔
      type = .named name ∨ ∃ header inner, type = .inline header inner ∧
        inner.Holds (.named name) := by
  apply type_induction
  case shape =>
    intro shape ih holder
    rw [Shape.references_eq, Shape.holds_iff]
    constructor
    · intro ⟨owner, h⟩
      obtain ⟨child, hchild, howner⟩ := List.mem_flatMap.mp h
      rcases (ih child hchild holder).mp ⟨owner, howner⟩ with rfl | ⟨header, inner, rfl, hinner⟩
      · exact .inl hchild
      · exact .inr ⟨header, inner, hchild, hinner⟩
    · intro h
      rcases h with hchild | ⟨header, inner, hchild, hinner⟩
      · obtain ⟨owner, howner⟩ := (ih _ hchild holder).mpr (.inl rfl)
        exact ⟨owner, List.mem_flatMap.mpr ⟨_, hchild, howner⟩⟩
      · obtain ⟨owner, howner⟩ := (ih _ hchild holder).mpr (.inr ⟨header, inner, rfl, hinner⟩)
        exact ⟨owner, List.mem_flatMap.mpr ⟨_, hchild, howner⟩⟩
  case named =>
    intro target holder
    simp [TypeExpr.references, eq_comm]
  case inline =>
    intro header shape ih holder
    rw [TypeExpr.references, ih header.name]
    constructor
    · intro h
      exact .inr ⟨header, shape, rfl, h⟩
    · intro h
      rcases h with heq | ⟨_, _, heq, h⟩
      · cases heq
      · cases heq
        exact h

/-- The list of references has those that the shape holds. -/
theorem Shape.exists_mem_references_iff {shape : Shape} {holder name : String} :
    (∃ owner, (name, owner) ∈ shape.references holder) ↔ shape.Holds (.named name) :=
  (TypeTable.exists_mem_references_iff name).1 shape holder

end TypeTable
