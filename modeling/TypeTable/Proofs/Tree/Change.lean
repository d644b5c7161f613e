import TypeTable.Tree.Basic

/-!
# Changes inside tags

A text, the items of a sequence and the entries of a mapping are changed inside the tags around
them. A value that reads as something else stays as it is. What the views show of a changed value is
what they show of the value, changed: `text?_mapText`, `items?_overItems`, `fields?_overFields`.
-/

namespace TypeTable.Tree

/-- A text with another content, inside its tags. What is no text stays as it is. -/
def mapText (f : String → String) : Tree → Tree
  | .text s => .text (f s)
  | .tagged tag value => .tagged tag (value.mapText f)
  | value => value

/-- A sequence with its items changed, inside its tags. What is no sequence stays as it is. -/
def overItems (change : List Tree → List Tree) : Tree → Tree
  | .seq items => .seq (change items)
  | .tagged tag value => .tagged tag (value.overItems change)
  | value => value

/-- A mapping with its entries changed, inside its tags. What is no mapping stays as it is. -/
def overFields (change : Fields → Fields) : Tree → Tree
  | .map entries => .map (change entries)
  | .tagged tag value => .tagged tag (value.overFields change)
  | value => value

theorem text?_mapText (f : String → String) (value : Tree) :
    (value.mapText f).text? = value.text?.map f := by
  match value with
  | .tagged _ inner => exact inner.text?_mapText f
  | .null | .bool _ | .int _ | .float _ | .text _ | .seq _ | .map _ => rfl

theorem items?_overItems (change : List Tree → List Tree) (value : Tree) :
    (value.overItems change).items? = value.items?.map change := by
  match value with
  | .tagged _ inner => exact inner.items?_overItems change
  | .null | .bool _ | .int _ | .float _ | .text _ | .seq _ | .map _ => rfl

theorem fields?_overFields (change : Fields → Fields) (value : Tree) :
    (value.overFields change).fields? = value.fields?.map change := by
  match value with
  | .tagged _ inner => exact inner.fields?_overFields change
  | .null | .bool _ | .int _ | .float _ | .text _ | .seq _ | .map _ => rfl

/-- A sequence with its items changed one by one counts as given where it did before. -/
theorem isVoid_overItems_map (change : Tree → Tree) (value : Tree) :
    (value.overItems (List.map change)).isVoid = value.isVoid := by
  match value with
  | .tagged _ inner => exact inner.isVoid_overItems_map change
  | .seq items => exact List.isEmpty_map
  | .null | .bool _ | .int _ | .float _ | .text _ | .map _ => rfl

theorem overFields_eq_self {change : Fields → Fields} {value : Tree}
    (h : value.fields? = none) : value.overFields change = value := by
  match value with
  | .tagged tag inner => exact congrArg (Tree.tagged tag) (inner.overFields_eq_self h)
  | .map _ => cases h
  | .null | .bool _ | .int _ | .float _ | .text _ | .seq _ => rfl

end TypeTable.Tree
