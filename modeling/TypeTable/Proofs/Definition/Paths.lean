import Mathlib.Data.List.Induction
import TypeTable.Proofs.Definition.Properties

/-!
# Paths into types and bodies

A path goes from a type to one that it holds at some depth, by steps to the elements of an array and
to the properties of an object. `TypeExpr.at?` follows it through types written in place, and
`Tree.at?` through the bodies that state them. `Definition.ofFields_at` says that the two stay
together: what stands at a path of a definition is what the body at the same path states, under the
name that the path gives it (`pathName`).
-/

namespace TypeTable

/-- A step from a type to a type that it holds. -/
inductive Step where
  | items
  | property (name : String)
  deriving DecidableEq, Repr

namespace Step

/-- The property that a step goes to. -/
def property? : Step → Option String
  | .items => none
  | .property name => some name

/-- The name of the type that a step leads to from a type of a name. -/
def nameFrom (name : String) : Step → String
  | .items => itemsName name
  | .property own => own

end Step

/-! ## Names -/

/-- The last property on a path. -/
def lastProperty? (path : List Step) : Option String :=
  path.reverse.findSome? Step.property?

/-- The number of steps to elements behind the last property of a path. -/
def elementDepth (path : List Step) : Nat :=
  (path.reverse.takeWhile (· == .items)).length

/-- The name of the elements that lie so many arrays deep in an array of a name. -/
def elementName (name : String) (depth : Nat) : String :=
  name ++ String.join (List.replicate depth "Items")

/-- The name of the type that a path leads to from a type called `root`: the last property on the
path, or else `root`, with the suffix of elements for each array behind it. -/
def pathName (root : String) (path : List Step) : String :=
  elementName ((lastProperty? path).getD root) (elementDepth path)

@[simp] theorem elementName_zero (name : String) : elementName name 0 = name :=
  String.append_empty

theorem elementName_succ (name : String) (depth : Nat) :
    elementName name (depth + 1) = itemsName (elementName name depth) := by
  rw [elementName, List.replicate_succ', String.join_append, ← String.append_assoc]
  rfl

theorem elementName_itemsName (name : String) (depth : Nat) :
    elementName (itemsName name) depth = elementName name (depth + 1) := by
  induction depth with
  | zero => rw [elementName_succ, elementName_zero, elementName_zero]
  | succ depth ih => rw [elementName_succ, ih, ← elementName_succ]

theorem pathName_append_items (root : String) (path : List Step) :
    pathName root (path ++ [.items]) = itemsName (pathName root path) := by
  have hlast : lastProperty? (path ++ [.items]) = lastProperty? path := by
    rw [lastProperty?, List.reverse_append]
    rfl
  have hdepth : elementDepth (path ++ [.items]) = elementDepth path + 1 := by
    simp [elementDepth]
  rw [pathName, hlast, hdepth, elementName_succ, pathName]

theorem pathName_append_property (root name : String) (path : List Step) :
    pathName root (path ++ [.property name]) = name := by
  have hlast : lastProperty? (path ++ [.property name]) = some name := by
    rw [lastProperty?, List.reverse_append]
    rfl
  have hdepth : elementDepth (path ++ [.property name]) = 0 := by
    simp [elementDepth]
  rw [pathName, hlast, hdepth, elementName_zero, Option.getD_some]

/-- The name at a path is made by its steps, one after the other. -/
theorem pathName_eq_foldl (root : String) (path : List Step) :
    pathName root path = path.foldl Step.nameFrom root := by
  induction path using List.reverseRecOn with
  | nil => exact elementName_zero root
  | append_singleton path step ih =>
    rw [List.foldl_append, ← ih]
    cases step with
    | items => exact pathName_append_items root path
    | property name => exact pathName_append_property root name path

@[simp] theorem pathName_nil (root : String) : pathName root [] = root :=
  pathName_eq_foldl root []

theorem pathName_cons (root : String) (step : Step) (path : List Step) :
    pathName root (step :: path) = pathName (step.nameFrom root) path := by
  rw [pathName_eq_foldl, pathName_eq_foldl, List.foldl_cons]

/-! ## What stands at a path -/

/-- The type expression that a step leads to from a shape. -/
def Shape.held? (step : Step) : Shape → Option TypeExpr
  | .array _ element =>
    match step with
    | .items => some element
    | .property _ => none
  | .object properties _ => step.property?.bind fun name => properties.lookup name
  | _ => none

/-- What a path leads to from a type expression, through types written in place. -/
def TypeExpr.at? (type : TypeExpr) : List Step → Option TypeExpr
  | [] => some type
  | step :: rest => (type.inline?.bind fun d => d.shape.held? step).bind fun held => held.at? rest

/-- The value that states the type a step leads to from a body. Of the entries for one property it
is the last. -/
def heldValue? (step : Step) (fields : Fields) : Option Tree :=
  match step with
  | .items => fieldValue? "items" fields
  | .property name =>
    ((fieldValue? "properties" fields).bind Tree.fields?).bind (lastStated? name)

/-- What a path leads to from a value, through the bodies that values read as. -/
def Tree.at? (value : Tree) : List Step → Option Tree
  | [] => some value
  | step :: rest => (value.fields?.bind (heldValue? step)).bind fun held => held.at? rest

/-! ## Paths through what is read -/

/-- A body that is read has no field that its kind does not have. -/
theorem fieldValue?_eq_none_of_header {name field : String} {own : List String} {fields : Fields}
    {header : Header} (h : Header.ofFields name own fields = .ok header)
    (hfield : field ∉ Kind.sharedFields ++ own) : fieldValue? field fields = none := by
  rw [Option.eq_none_iff_forall_ne_some]
  intro value hvalue
  have hkey := (Header.ofFields_eq_ok_iff.mp h).1 _ (mem_of_fieldValue? hvalue)
  obtain ⟨other, hother, hmem⟩ := isFieldKey_iff.mp hkey
  cases hother
  exact hfield hmem

theorem fieldValue?_items_eq_none {name : String} {kind : Kind} {fields : Fields} {header : Header}
    (h : Header.ofFields name kind.ownFields fields = .ok header) (hkind : kind ≠ .array) :
    fieldValue? "items" fields = none := by
  refine fieldValue?_eq_none_of_header h ?_
  revert hkind
  cases kind <;> decide

theorem fieldValue?_properties_eq_none {name : String} {kind : Kind} {fields : Fields}
    {header : Header} (h : Header.ofFields name kind.ownFields fields = .ok header)
    (hkind : kind ≠ .object) : fieldValue? "properties" fields = none := by
  refine fieldValue?_eq_none_of_header h ?_
  revert hkind
  cases kind <;> decide

/-- A step leads somewhere from a body when it does so from the shape that is read, and the value it
leads to there gives the type that it leads to here. -/
theorem rel_held? {name : String} {fields : Fields} {d : Definition}
    (h : (Definition.ofFields name fields).outcome = .ok d) (step : Step) :
    Option.Rel (ReadsType (step.nameFrom name)) (heldValue? step fields) (d.shape.held? step) := by
  obtain ⟨-, hheader, hshape⟩ := Definition.ofFields_eq_ok_iff.mp h
  obtain ⟨header, shape⟩ := d
  cases hshape with
  | int | number | bool | string =>
    cases step with
    | items =>
      rw [heldValue?, fieldValue?_items_eq_none hheader nofun]
      exact .none
    | property property =>
      rw [heldValue?, fieldValue?_properties_eq_none hheader nofun]
      exact .none
  | array hvalue helement =>
    cases step with
    | items =>
      rw [heldValue?, (elementValue_eq_ok_iff.mp hvalue).1]
      exact .some helement
    | property property =>
      rw [heldValue?, fieldValue?_properties_eq_none hheader nofun]
      exact .none
  | object hentries hstated =>
    cases step with
    | items =>
      rw [heldValue?, fieldValue?_items_eq_none hheader nofun]
      exact .none
    | property property =>
      obtain ⟨value, hvalue, hfields, -⟩ := propertyEntries_eq_ok_iff.mp hentries
      rw [heldValue?, hvalue, Option.bind_some, hfields, Option.bind_some]
      exact rel_lookup_collectProperties hstated property

/-- A path leads somewhere from a value when it does so from the type that is read, and the value
that it leads to gives the type that it leads to. -/
theorem rel_at? {name : String} {value : Tree} {type : TypeExpr} (h : ReadsType name value type)
    (path : List Step) :
    Option.Rel (ReadsType (pathName name path)) (value.at? path) (type.at? path) := by
  induction path generalizing name value type with
  | nil =>
    rw [pathName_nil]
    exact .some h
  | cons step rest ih =>
    rw [pathName_cons, Tree.at?, TypeExpr.at?]
    cases h with
    | named h =>
      rw [Tree.fields?_eq_none_of_text? (Tree.reference?_eq_some_iff.mp h)]
      exact .none
    | inline hfields h =>
      rw [hfields]
      exact (rel_held? h step).bind fun _ _ hheld => ih hheld

/-- What a definition holds at a path is what its body states there. A type written in place is read
from the body at the same path, under the name that the path gives. A reference is stated by a text
that is its name behind the mark. Where the path leads nowhere in the definition, it leads nowhere
in the body. -/
theorem Definition.ofFields_at {name : String} {fields : Fields} {d : Definition}
    (h : (Definition.ofFields name fields).outcome = .ok d) :
    (∀ path inner, d.toInline.at? path = some inner.toInline →
      ∃ value body, (Tree.map fields).at? path = some value ∧ value.fields? = some body ∧
        (Definition.ofFields (pathName name path) body).outcome = .ok inner) ∧
      (∀ path target, d.toInline.at? path = some (.named target) →
        ∃ value, (Tree.map fields).at? path = some value ∧ value.text? = some ("#" ++ target)) ∧
      ∀ path, d.toInline.at? path = none → (Tree.map fields).at? path = none := by
  have hrel : ∀ path, Option.Rel (ReadsType (pathName name path)) ((Tree.map fields).at? path)
      (d.toInline.at? path) := rel_at? (.inline rfl h)
  refine ⟨fun path inner hpath => ?_, fun path target hpath => ?_, fun path hpath =>
    (hrel path).eq_none hpath⟩
  · obtain ⟨value, hvalue, hread⟩ := (hrel path).exists_of_eq_some hpath
    cases hread with
    | inline hbody hinner => exact ⟨value, _, hvalue, hbody, hinner⟩
  · obtain ⟨value, hvalue, hread⟩ := (hrel path).exists_of_eq_some hpath
    cases hread with
    | named href => exact ⟨value, hvalue, Tree.reference?_eq_some_iff.mp href⟩

/-- The body of an array of integers. -/
def rowBody : Fields :=
  [(.text "type", .text "array"),
    (.text "items", .map [(.text "type", .text "int"), (.text "format", .text "int64")])]

/-- The body of an object whose property is stated twice, the second time by that body. -/
def gridBody : Fields :=
  [(.text "type", .text "object"), (.text "properties", .map
    [(.text "row", .text "#Row"), (.tagged ⟨"t"⟩ (.text "row"), .tagged ⟨"t"⟩ (.map rowBody))])]

/-- The type of the integers. -/
def gridElement : Definition :=
  ⟨⟨"rowItems", none⟩, .int .int64⟩

/-- The type of the object. -/
def grid : Definition :=
  ⟨⟨"Grid", none⟩, .object [("row", .inline ⟨"row", none⟩ (.array .array gridElement.toInline))] []⟩

/-- The elements of an array that is a property are named after the property. -/
theorem ofFields_at_grid :
    (Definition.ofFields "Grid" gridBody).outcome = .ok grid ∧
      grid.toInline.at? [.property "row", .items] = some gridElement.toInline ∧
      pathName "Grid" [.property "row", .items] = "rowItems" ∧
      ∃ value body, (Tree.map gridBody).at? [.property "row", .items] = some value ∧
        value.fields? = some body ∧
        (Definition.ofFields (pathName "Grid" [.property "row", .items]) body).outcome =
          .ok gridElement := by
  have helement : ReadsType "rowItems"
      (.map [(.text "type", .text "int"), (.text "format", .text "int64")]) gridElement.toInline :=
    .inline rfl (Definition.ofFields_eq_ok_iff.mpr ⟨rfl, rfl, .int rfl⟩)
  have hrow : ReadsType "row" (.tagged ⟨"t"⟩ (.map rowBody))
      (.inline ⟨"row", none⟩ (.array .array gridElement.toInline)) :=
    .inline rfl (Definition.ofFields_eq_ok_iff.mpr ⟨rfl, rfl, .array rfl helement rfl⟩)
  have hstated : List.Forall₂ ReadsProperty
      [(.text "row", .text "#Row"), (.tagged ⟨"t"⟩ (.text "row"), .tagged ⟨"t"⟩ (.map rowBody))]
      [("row", .named "Row"),
        ("row", .inline ⟨"row", none⟩ (.array .array gridElement.toInline))] :=
    .cons ⟨rfl, .named rfl⟩ (.cons ⟨rfl, hrow⟩ .nil)
  have h : (Definition.ofFields "Grid" gridBody).outcome = .ok grid :=
    Definition.ofFields_eq_ok_iff.mpr ⟨rfl, rfl, .object rfl hstated rfl⟩
  exact ⟨h, rfl, by decide, (Definition.ofFields_at h).1 _ gridElement rfl⟩

end TypeTable
