import TypeTable.Proofs.Definition.Children
import TypeTable.Proofs.Definition.Naming
import TypeTable.Proofs.Definition.Paths
import TypeTable.Proofs.Definition.Reword
import TypeTable.Proofs.Definition.WellFormed

/-!
# Where references are

`Shape.places` lists the references that a shape holds at any depth, in order, each with the path to
the type that holds it. In a type that is well formed the path gives the name of the holder, so the
list says more than that of the references and their holders does (`references_eq_places`). Another
name for the type changes no place, and other words only the targets (`places_under`,
`places_reword`).
-/

namespace TypeTable

mutual

/-- The references in the shape of the type that a path leads to, each with the path to its
holder. -/
def Shape.places (path : List Step) : Shape → List (List Step × String)
  | .array _ element => element.places path .items
  | .object properties _ => propertyPlaces path properties
  | _ => []
termination_by structural shape => shape

/-- The references in what a step leads to from the type at a path. -/
def TypeExpr.places (path : List Step) (step : Step) : TypeExpr → List (List Step × String)
  | .named target => [(path, target)]
  | .inline _ shape => shape.places (path ++ [step])
termination_by structural type => type

/-- The references in the properties of the type at a path. -/
def propertyPlaces (path : List Step) : List (String × TypeExpr) → List (List Step × String)
  | [] => []
  | (name, type) :: rest => type.places path (.property name) ++ propertyPlaces path rest
termination_by structural properties => properties

end

theorem propertyPlaces_eq (path : List Step) (properties : List (String × TypeExpr)) :
    propertyPlaces path properties =
      properties.flatMap fun property => property.2.places path (.property property.1) := by
  induction properties with
  | nil => rfl
  | cons property rest ih => rw [propertyPlaces, ih, List.flatMap_cons]

/-! ## Names of holders -/

/-- A reference at a place, with the name of its holder in a type called `root`. -/
def heldAt (root : String) (place : List Step × String) : String × String :=
  (place.2, pathName root place.1)

/-- In what is well formed, the names of holders follow from their places. -/
theorem references_eq_places (root : String) :
    (∀ (shape : Shape) path, shape.WellFormed (pathName root path) →
      shape.references (pathName root path) = (shape.places path).map (heldAt root)) ∧
    ∀ (type : TypeExpr) path step, type.WellFormed (pathName root (path ++ [step])) →
      type.references (pathName root path) = (type.places path step).map (heldAt root) := by
  apply type_induction
  case shape =>
    intro shape ih path h
    rw [Shape.references_eq]
    cases h with
    | int | number | bool | string | enumeration => rfl
    | array helement =>
      rw [Shape.children, List.flatMap_singleton, Shape.places]
      refine ih _ (List.mem_singleton_self _) path .items ?_
      rwa [pathName_append_items]
    | @object _ properties _ _ _ htypes =>
      rw [Shape.children, List.flatMap_map, Shape.places, propertyPlaces_eq, List.map_flatMap]
      refine List.flatMap_congr fun property hproperty => ?_
      refine ih _ (List.mem_map_of_mem hproperty) path (.property property.1) ?_
      rw [pathName_append_property]
      exact htypes property hproperty
  case named =>
    intro target path step _
    rw [TypeExpr.references]
    rfl
  case inline =>
    intro header shape ih path step h
    cases h with
    | inline hname hshape =>
      rw [TypeExpr.references, hname, ih (path ++ [step]) hshape, TypeExpr.places]

/-! ## Other names and other words -/

theorem places_of_under :
    (∀ (shape : Shape) name path, (shape.under name).places path = shape.places path) ∧
    ∀ (type : TypeExpr) name path step, (type.under name).places path step = type.places path step
    := by
  apply type_induction
  case shape =>
    intro shape ih name path
    cases shape with
    | array container element =>
      rw [Shape.under, Shape.places, Shape.places, ih _ (List.mem_singleton_self _)]
    | _ => rfl
  case named =>
    intro target name path step
    rfl
  case inline =>
    intro header shape ih name path step
    rw [TypeExpr.under, TypeExpr.places, TypeExpr.places, ih]

/-- A reference at a place, with another target. -/
def retargetPlace (w : Rewording) (place : List Step × String) : List Step × String :=
  (place.1, w.target place.2)

theorem places_of_reword (w : Rewording) :
    (∀ (shape : Shape) path,
      (shape.reword w).places path = (shape.places path).map (retargetPlace w)) ∧
    ∀ (type : TypeExpr) path step,
      (type.reword w).places path step = (type.places path step).map (retargetPlace w) := by
  apply type_induction
  case shape =>
    intro shape ih path
    cases shape with
    | array container element =>
      rw [Shape.reword, Shape.places, Shape.places, ih _ (List.mem_singleton_self _)]
    | object properties required =>
      rw [Shape.reword, Shape.places, Shape.places, propertyPlaces_eq, propertyPlaces_eq,
        rewordTypes_eq, List.flatMap_map, List.map_flatMap]
      exact List.flatMap_congr fun property hproperty =>
        ih _ (List.mem_map_of_mem hproperty) path (.property property.1)
    | _ => rfl
  case named =>
    intro target path step
    rfl
  case inline =>
    intro header shape ih path step
    rw [TypeExpr.reword, TypeExpr.places, TypeExpr.places, ih]

theorem Shape.places_under (shape : Shape) (name : String) (path : List Step) :
    (shape.under name).places path = shape.places path :=
  places_of_under.1 shape name path

theorem Shape.places_reword (w : Rewording) (shape : Shape) (path : List Step) :
    (shape.reword w).places path = (shape.places path).map (retargetPlace w) :=
  (places_of_reword w).1 shape path

theorem Shape.references_eq_places {root : String} {shape : Shape} (h : shape.WellFormed root) :
    shape.references root = (shape.places []).map (heldAt root) := by
  have heq := (TypeTable.references_eq_places root).1 shape []
  rw [pathName_nil] at heq
  exact heq h

end TypeTable
