import Mathlib.Data.List.Basic
import TypeTable.Proofs.Definition.Children
import TypeTable.Proofs.Table.Reading
import TypeTable.Table.References

/-!
# Checking the references of a table

The check reports the first of the dangling references, in the order of `Table.dangling`
(`Table.firstDangling?_eq_head?`). It succeeds if and only if everything that the definitions hold
stands for a type, and then no walk through children leads out of the table:
`Table.checkReferences_correct`.
-/

namespace TypeTable

/-! ## The first dangling reference -/

section FirstDangling

theorem findSome?_congr {α β : Type} {f g : α → Option β} {l : List α} (h : ∀ a ∈ l, f a = g a) :
    l.findSome? f = l.findSome? g := by
  rw [← List.head?_filterMap, List.filterMap_congr h, List.head?_filterMap]

variable {defined : String → Bool}

theorem firstDanglingProperty?_eq (holder : String) (properties : List (String × TypeExpr)) :
    firstDanglingProperty? defined holder properties
      = (properties.map (·.2)).findSome? (·.firstDangling? defined holder) := by
  induction properties with
  | nil => rfl
  | cons property rest ih =>
    rw [firstDanglingProperty?, ih, List.map_cons, List.findSome?_cons]
    cases property.2.firstDangling? defined holder <;> rfl

theorem Shape.firstDangling?_eq (holder : String) (shape : Shape) :
    shape.firstDangling? defined holder
      = shape.children.findSome? (·.firstDangling? defined holder) := by
  cases shape with
  | array container element =>
    rw [Shape.firstDangling?, Shape.children, List.findSome?_singleton]
  | object properties required =>
    rw [Shape.firstDangling?, Shape.children, firstDanglingProperty?_eq]
  | _ => rfl

/-- The dangling ones of the references that types hold, in order. -/
def dangling (defined : String → Bool) (held : List (String × String)) : List Dangling :=
  (held.filter fun (name, _) => !defined name).map fun (name, holder) => ⟨name, holder⟩

theorem dangling_eq_nil_iff {held : List (String × String)} :
    dangling defined held = [] ↔ ∀ name, (∃ owner, (name, owner) ∈ held) → defined name = true := by
  rw [dangling, List.map_eq_nil_iff, List.filter_eq_nil_iff]
  constructor
  · intro h name ⟨owner, howner⟩
    simpa using h _ howner
  · intro h held hheld
    simpa using h held.1 ⟨held.2, hheld⟩

theorem firstDangling?_eq_head? :
    (∀ (shape : Shape) holder,
      shape.firstDangling? defined holder = (dangling defined (shape.references holder)).head?) ∧
    ∀ (type : TypeExpr) holder,
      type.firstDangling? defined holder = (dangling defined (type.references holder)).head? := by
  apply type_induction
  case shape =>
    intro shape ih holder
    rw [Shape.firstDangling?_eq, Shape.references_eq, dangling, List.filter_flatMap,
      List.map_flatMap, List.head?_flatMap]
    exact findSome?_congr fun child hchild => ih child hchild holder
  case named =>
    intro name holder
    rw [TypeExpr.firstDangling?, TypeExpr.references, dangling]
    cases hname : defined name <;> simp [hname]
  case inline =>
    intro header shape ih holder
    rw [TypeExpr.firstDangling?, TypeExpr.references, ih header.name]

end FirstDangling

namespace Table

variable {table : Table}

/-- The dangling references of a table, in the order of the definitions. -/
def dangling (table : Table) : List Dangling :=
  TypeTable.dangling table.contains (table.definitions.flatMap fun d => d.shape.references d.name)

theorem firstDangling?_eq_head? : table.firstDangling? = table.dangling.head? := by
  rw [firstDangling?, dangling, TypeTable.dangling, List.filter_flatMap, List.map_flatMap,
    List.head?_flatMap]
  exact findSome?_congr fun d _ => TypeTable.firstDangling?_eq_head?.1 d.shape d.name

theorem checkReferences_eq_error_iff {reported : Dangling} :
    table.checkReferences = .error reported ↔ table.dangling.head? = some reported := by
  rw [checkReferences, firstDangling?_eq_head?]
  cases table.dangling.head? <;> simp

theorem checkReferences_eq_ok_iff_dangling : table.checkReferences = .ok () ↔ table.dangling = [] := by
  rw [checkReferences, firstDangling?_eq_head?]
  cases table.dangling <;> simp

/-! ## Types that all stand for something -/

theorem exists_resolve?_named_iff {name : String} :
    (∃ target, table.resolve? (.named name) = some target) ↔ table.contains name = true := by
  rw [contains_iff, names, List.mem_map, resolve?, get?, ← Option.isSome_iff_exists,
    List.find?_isSome]
  simp only [beq_iff_eq]

/-- Everything that a definition holds stands for a type. -/
def Resolves (table : Table) (d : Definition) : Prop :=
  ∀ type, d.shape.Holds type → ∃ target, table.resolve? type = some target

theorem resolves_iff {d : Definition} :
    table.Resolves d ↔
      ∀ name, (∃ owner, (name, owner) ∈ d.shape.references d.name) → table.contains name = true := by
  simp only [Shape.exists_mem_references_iff, ← exists_resolve?_named_iff]
  constructor
  · intro h name hheld
    exact h _ hheld
  · intro h type hheld
    cases type with
    | named name => exact h name hheld
    | inline header shape => exact ⟨_, rfl⟩

theorem checkReferences_eq_ok_iff :
    table.checkReferences = .ok () ↔ ∀ d ∈ table.definitions, table.Resolves d := by
  rw [checkReferences_eq_ok_iff_dangling, dangling, dangling_eq_nil_iff]
  simp only [resolves_iff, List.mem_flatMap]
  constructor
  · intro h d hd name ⟨owner, howner⟩
    exact h name ⟨owner, d, hd, howner⟩
  · intro h name ⟨owner, d, hd, howner⟩
    exact h d hd name ⟨owner, howner⟩

/-! ## Walks -/

/-- What a walk from a definition leads to: each step goes to a child, and from there to the type
that it stands for, if any. -/
inductive Reaches (table : Table) (start : Definition) : Option Definition → Prop
  | start : table.Reaches start (some start)
  | step {d : Definition} {child : TypeExpr} :
      table.Reaches start (some d) → child ∈ d.children →
      table.Reaches start (table.resolve? child)

theorem Resolves.of_mem_children {d e : Definition} {child : TypeExpr}
    (hall : ∀ d ∈ table.definitions, table.Resolves d) (h : table.Resolves d)
    (hchild : child ∈ d.children) (he : table.resolve? child = some e) : table.Resolves e := by
  cases child with
  | named name => exact hall e (List.mem_of_find?_eq_some he)
  | inline header shape =>
    cases he
    intro type hheld
    exact h type (.inner hchild hheld)

theorem Reaches.resolves {start : Definition} {result : Option Definition}
    (hall : ∀ d ∈ table.definitions, table.Resolves d) (hstart : table.Resolves start)
    (h : table.Reaches start result) : ∃ d, result = some d ∧ table.Resolves d := by
  induction h with
  | start => exact ⟨start, rfl, hstart⟩
  | @step d child _ hchild ih =>
    obtain ⟨_, heq, hd⟩ := ih
    cases heq
    obtain ⟨e, he⟩ := hd child (.child hchild)
    exact ⟨e, he, hd.of_mem_children hall hchild he⟩

/-- The check of references succeeds if and only if everything held at any depth stands for a type,
and else reports the first dangling reference. After a success no walk leads out of the table. -/
theorem checkReferences_correct (table : Table) :
    (table.checkReferences = .ok () ↔
      ∀ d ∈ table.definitions, ∀ type, d.shape.Holds type →
        ∃ target, table.resolve? type = some target) ∧
    (∀ reported, table.checkReferences = .error reported ↔
      table.dangling.head? = some reported) ∧
    (table.checkReferences = .ok () →
      ∀ d ∈ table.definitions, ∀ result, table.Reaches d result → ∃ e, result = some e) := by
  refine ⟨checkReferences_eq_ok_iff, fun _ => checkReferences_eq_error_iff, ?_⟩
  intro hok d hd result hresult
  have hall := checkReferences_eq_ok_iff.mp hok
  obtain ⟨e, he, -⟩ := hresult.resolves hall (hall d hd)
  exact ⟨e, he⟩

-- The holder is the innermost type: the array written in place, not the definition around it.
example : (Table.mk [⟨⟨"Team", none⟩, .object [("members",
      .inline ⟨"members", none⟩ (.array .array (.named "Player")))] []⟩]
    (by decide)).checkReferences = .error ⟨"Player", "members"⟩ := rfl

end Table

end TypeTable
