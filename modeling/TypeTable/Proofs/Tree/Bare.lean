import TypeTable.Proofs.Tree.Keys

/-!
# Trees without tags on their values

`Tree.bare` takes the tags from the values of a tree at every depth. The keys of mappings keep
theirs, and what stands under the untagged key `description` stays as it is. A bare tree reads as
the tree itself does, and what it holds is bare (`Tree.items?_bare`, `Tree.fields?_bare`).
-/

namespace TypeTable

namespace Tree

mutual

/-- A tree without tags on its values. -/
def bare : Tree → Tree
  | .tagged _ value => value.bare
  | .seq items => .seq (bareItems items)
  | .map entries => .map (bareEntries entries)
  | value => value
termination_by structural value => value

/-- The items of a sequence without tags. -/
def bareItems : List Tree → List Tree
  | [] => []
  | item :: rest => item.bare :: bareItems rest
termination_by structural items => items

/-- The entries of a mapping, the values without tags unless they are descriptions. -/
def bareEntries : List (Tree × Tree) → List (Tree × Tree)
  | [] => []
  | (key, value) :: rest =>
    (key, if key.isText "description" then value else value.bare) :: bareEntries rest
termination_by structural entries => entries

end

/-- What becomes of a value under a key. -/
def bareUnder (key value : Tree) : Tree :=
  if key.isText "description" then value else value.bare

theorem bareItems_eq (items : List Tree) : bareItems items = items.map bare := by
  induction items with
  | nil => rfl
  | cons item rest ih => rw [bareItems, ih, List.map_cons]

theorem bareEntries_eq (entries : Fields) :
    bareEntries entries = entries.map fun entry => (entry.1, bareUnder entry.1 entry.2) := by
  induction entries with
  | nil => rfl
  | cons entry rest ih =>
    rw [bareEntries, ih, List.map_cons]
    rfl

/-! ## Views of bare trees -/

theorem text?_bare (value : Tree) : value.bare.text? = value.text? := by
  match value with
  | .tagged _ inner => exact inner.text?_bare
  | .null | .bool _ | .int _ | .float _ | .text _ | .seq _ | .map _ => rfl

theorem items?_bare (value : Tree) : value.bare.items? = value.items?.map (·.map bare) := by
  match value with
  | .tagged _ inner => exact inner.items?_bare
  | .seq items => exact congrArg some (bareItems_eq items)
  | .null | .bool _ | .int _ | .float _ | .text _ | .map _ => rfl

theorem fields?_bare (value : Tree) : value.bare.fields? = value.fields?.map bareEntries := by
  match value with
  | .tagged _ inner => exact inner.fields?_bare
  | .null | .bool _ | .int _ | .float _ | .text _ | .seq _ | .map _ => rfl

theorem isVoid_bare (value : Tree) : value.bare.isVoid = value.isVoid := by
  match value with
  | .tagged _ inner => exact inner.isVoid_bare
  | .seq items =>
    show (bareItems items).isEmpty = items.isEmpty
    rw [bareItems_eq, List.isEmpty_map]
  | .map entries =>
    show (bareEntries entries).isEmpty = entries.isEmpty
    rw [bareEntries_eq, List.isEmpty_map]
  | .null | .bool _ | .int _ | .float _ | .text _ => rfl

end Tree

/-! ## Fields of bare mappings -/

theorem fieldValue?_bareEntries {name : String} (h : name ≠ "description") (fields : Fields) :
    fieldValue? name (Tree.bareEntries fields) = (fieldValue? name fields).map Tree.bare := by
  have hunder : Tree.bareUnder (.text name) = Tree.bare := by
    funext value
    exact if_neg (by simpa [Tree.isText] using h)
  rw [Tree.bareEntries_eq, fieldValue?_map, hunder]

theorem fieldValue?_description_bareEntries (fields : Fields) :
    fieldValue? "description" (Tree.bareEntries fields) = fieldValue? "description" fields := by
  have hunder : Tree.bareUnder (.text "description") = id := rfl
  rw [Tree.bareEntries_eq, fieldValue?_map, hunder, Option.map_id_fun, id_eq]

end TypeTable
