import TypeTable.Proofs.Definition.Fields
import TypeTable.Proofs.Tree.Keys

/-!
# Bodies in other words

Two sorts of text in a body are its author's own: descriptions, and the names that references refer
to. A `Rewording` changes them. `Tree.rewordBody` does so in a body and in all bodies inside it, and
leaves keys, tags and all other values alone, also those of a property called `description`. What
the views of a reworded value show is what those of the value show, reworded
(`Tree.reference?_reword`, `Tree.fields?_reword`).
-/

namespace TypeTable

/-- What becomes of each description, and of each name that a reference refers to. -/
structure Rewording where
  description : String → String := id
  target : String → String := id

/-- A reference with another target. A text that is no reference stays as it is. -/
def Rewording.reference (w : Rewording) (text : String) : String :=
  match referenceTarget? text with
  | some target => "#" ++ w.target target
  | none => text

theorem Rewording.referenceTarget?_reference (w : Rewording) (text : String) :
    referenceTarget? (w.reference text) = (referenceTarget? text).map w.target := by
  unfold reference
  split
  · next target htarget => rw [htarget, Option.map_some, referenceTarget?_eq_some_iff]
  · next hnone => rw [hnone, Option.map_none]

/-- With the same targets, a text that states a type stays as it is. -/
theorem Rewording.reference_eq_self {w : Rewording} (h : ∀ target, w.target target = target)
    (text : String) : w.reference text = text := by
  unfold reference
  split
  · next target htarget => rw [h, referenceTarget?_eq_some_iff.mp htarget]
  · rfl

/-- No reference becomes empty, whatever its target: the mark stays. -/
theorem Rewording.isEmpty_reference (w : Rewording) (text : String) :
    (w.reference text).isEmpty = text.isEmpty := by
  have hmark : ∀ target : String, ("#" ++ target).isEmpty = false := by
    intro target
    rw [← Bool.not_eq_true, String.isEmpty_iff, String.append_eq_empty_iff]
    exact fun hempty => absurd hempty.1 (by decide)
  unfold reference
  split
  · next target htarget => rw [referenceTarget?_eq_some_iff.mp htarget, hmark, hmark]
  · rfl

namespace Tree

/-- The value of a description. One that is not a text stays as it is. -/
def rewordDescription (w : Rewording) : Tree → Tree
  | .text s => .text (w.description s)
  | value => value

mutual

/-- A value that states a type: a reference, or a body. -/
def reword (w : Rewording) : Tree → Tree
  | .text s => .text (w.reference s)
  | .map entries => .map (rewordBody w entries)
  | .tagged tag value => .tagged tag (value.reword w)
  | value => value
termination_by structural value => value

/-- A value that holds the statements of properties. -/
def rewordBlock (w : Rewording) : Tree → Tree
  | .map entries => .map (rewordProperties w entries)
  | .tagged tag value => .tagged tag (value.rewordBlock w)
  | value => value
termination_by structural value => value

/-- The fields of a body. -/
def rewordBody (w : Rewording) : List (Tree × Tree) → List (Tree × Tree)
  | [] => []
  | (key, value) :: rest =>
    (key, if key.isText "items" then value.reword w
      else if key.isText "properties" then value.rewordBlock w
      else if key.isText "description" then value.rewordDescription w
      else value) :: rewordBody w rest
termination_by structural fields => fields

/-- The statements of properties. -/
def rewordProperties (w : Rewording) : List (Tree × Tree) → List (Tree × Tree)
  | [] => []
  | (key, value) :: rest => (key, value.reword w) :: rewordProperties w rest
termination_by structural entries => entries

end

variable (w : Rewording)

/-- What becomes of the value of a field. -/
def rewordUnder (key value : Tree) : Tree :=
  if key.isText "items" then value.reword w
  else if key.isText "properties" then value.rewordBlock w
  else if key.isText "description" then value.rewordDescription w
  else value

theorem rewordBody_eq (fields : Fields) :
    rewordBody w fields = fields.map fun entry => (entry.1, rewordUnder w entry.1 entry.2) := by
  induction fields with
  | nil => rfl
  | cons entry rest ih =>
    rw [rewordBody, ih, List.map_cons]
    rfl

/-! ## Views of reworded values -/

theorem text?_reword (value : Tree) : (value.reword w).text? = value.text?.map w.reference := by
  match value with
  | .tagged _ inner => exact inner.text?_reword
  | .null | .bool _ | .int _ | .float _ | .text _ | .seq _ | .map _ => rfl

theorem reference?_reword (value : Tree) :
    (value.reword w).reference? = value.reference?.map w.target := by
  unfold reference?
  rw [text?_reword]
  cases value.text? with
  | none => rfl
  | some text => exact w.referenceTarget?_reference text

theorem fields?_reword (value : Tree) :
    (value.reword w).fields? = value.fields?.map (rewordBody w) := by
  match value with
  | .tagged _ inner => exact inner.fields?_reword
  | .null | .bool _ | .int _ | .float _ | .text _ | .seq _ | .map _ => rfl

theorem fields?_rewordBlock (value : Tree) :
    (value.rewordBlock w).fields? = value.fields?.map (rewordProperties w) := by
  match value with
  | .tagged _ inner => exact inner.fields?_rewordBlock
  | .null | .bool _ | .int _ | .float _ | .text _ | .seq _ | .map _ => rfl

theorem isVoid_reword (value : Tree) : (value.reword w).isVoid = value.isVoid := by
  match value with
  | .tagged _ inner => exact inner.isVoid_reword
  | .text s => exact w.isEmpty_reference s
  | .map entries =>
    show (rewordBody w entries).isEmpty = entries.isEmpty
    rw [rewordBody_eq, List.isEmpty_map]
  | .null | .bool _ | .int _ | .float _ | .seq _ => rfl

/-- A value that states no type, which an error message shows, stays as it is. -/
theorem reword_eq_self {value : Tree} (hreference : value.reference? = none)
    (hfields : value.fields? = none) : value.reword w = value := by
  match value with
  | .tagged tag inner => exact congrArg (tagged tag) (inner.reword_eq_self hreference hfields)
  | .text s =>
    have htext : referenceTarget? s = none := hreference
    rw [reword, Rewording.reference, htext]
  | .map entries => cases hfields
  | .null | .bool _ | .int _ | .float _ | .seq _ => rfl

end Tree

/-! ## Fields of reworded bodies -/

section Fields

variable (w : Rewording) (fields : Fields)

theorem fieldValue?_rewordBody (name : String) :
    fieldValue? name (Tree.rewordBody w fields) =
      (fieldValue? name fields).map (Tree.rewordUnder w (.text name)) := by
  rw [Tree.rewordBody_eq, fieldValue?_map]

/-- A field that is neither a description nor holds types stays as it is. -/
theorem fieldValue?_rewordBody_of_ne {name : String}
    (h : name ∉ ["items", "properties", "description"]) :
    fieldValue? name (Tree.rewordBody w fields) = fieldValue? name fields := by
  simp only [List.mem_cons, List.not_mem_nil, or_false, not_or] at h
  have hunder : Tree.rewordUnder w (.text name) = id := by
    funext value
    simp [Tree.rewordUnder, Tree.isText, h]
  rw [fieldValue?_rewordBody, hunder, Option.map_id_fun, id_eq]

theorem fieldValue?_items_rewordBody :
    fieldValue? "items" (Tree.rewordBody w fields) =
      (fieldValue? "items" fields).map (Tree.reword w) :=
  fieldValue?_rewordBody w fields "items"

theorem fieldValue?_properties_rewordBody :
    fieldValue? "properties" (Tree.rewordBody w fields) =
      (fieldValue? "properties" fields).map (Tree.rewordBlock w) :=
  fieldValue?_rewordBody w fields "properties"

theorem fieldValue?_description_rewordBody :
    fieldValue? "description" (Tree.rewordBody w fields) =
      (fieldValue? "description" fields).map (Tree.rewordDescription w) :=
  fieldValue?_rewordBody w fields "description"

end Fields

end TypeTable
