import TypeTable.Decimal.Layout

/-!
# Document trees

A document is a tree of scalars, sequences and mappings, any node of which may carry tags. Tags
are looked through when a value is read (`Tree.untagged`), but a field is found only by its
untagged name (`fieldValue?`).

`sizeOf_lt_of_fields?` and `sizeOf_lt_of_fieldValue?` say that what these views reach is smaller,
which is why reading a document ends.
-/

namespace TypeTable

/-- A tag by its name, without the mark that introduces it. -/
structure Tag where
  name : String
  deriving DecidableEq, Repr, Inhabited

namespace Tag

/-- The tag that a text names; the mark in front is dropped unless it is all there is. -/
def ofText (text : String) : Tag :=
  match text.toList with
  | '!' :: first :: rest => ⟨String.ofList (first :: rest)⟩
  | _ => ⟨text⟩

/-- A tag as a document shows it. -/
def text (tag : Tag) : String :=
  "!" ++ tag.name

end Tag

/-- A document, or a part of one. Mappings keep the order of their entries. -/
inductive Tree where
  | null
  | bool (value : Bool)
  | int (value : Int)
  | float (value : Binary64)
  | text (value : String)
  | seq (items : List Tree)
  | map (entries : List (Tree × Tree))
  | tagged (tag : Tag) (value : Tree)
  deriving Inhabited

/-- The entries of a mapping. -/
abbrev Fields := List (Tree × Tree)

namespace Tree

/-- A value without the tags around it. -/
def untagged : Tree → Tree
  | .tagged _ value => value.untagged
  | value => value

/-- The text that a value reads as. -/
def text? (value : Tree) : Option String :=
  match value.untagged with
  | .text s => some s
  | _ => none

/-- The items of a value that reads as a sequence. -/
def items? (value : Tree) : Option (List Tree) :=
  match value.untagged with
  | .seq items => some items
  | _ => none

/-- The entries of a value that reads as a mapping. -/
def fields? (value : Tree) : Option Fields :=
  match value.untagged with
  | .map entries => some entries
  | _ => none

/-- Whether a value reads as null. -/
def isNull (value : Tree) : Bool :=
  match value.untagged with
  | .null => true
  | _ => false

/-- Values that count as not given: null, `false`, zero, and all that is empty. -/
def isVoid (value : Tree) : Bool :=
  match value.untagged with
  | .null => true
  | .bool b => !b
  | .int n => n == 0
  | .float x => x.isZero
  | .text s => s.isEmpty
  | .seq items => items.isEmpty
  | .map entries => entries.isEmpty
  | .tagged .. => false

/-- A value as error messages show it: scalars by their text, collections by their sort. -/
def describe : Tree → String
  | .null => "null"
  | .bool b => toString b
  | .int n => toString n
  | .float x => x.text
  | .text s => s
  | .seq _ => "a list"
  | .map _ => "a mapping"
  | .tagged tag value => tag.text ++ " " ++ value.describe

/-- Whether a tree is the untagged text `name`. -/
def isText (name : String) : Tree → Bool
  | .text s => s == name
  | _ => false

/-! ## Views -/

@[simp] theorem untagged_tagged (tag : Tag) (value : Tree) :
    (tagged tag value).untagged = value.untagged := rfl

@[simp] theorem text?_tagged (tag : Tag) (value : Tree) :
    (tagged tag value).text? = value.text? := rfl

@[simp] theorem items?_tagged (tag : Tag) (value : Tree) :
    (tagged tag value).items? = value.items? := rfl

@[simp] theorem fields?_tagged (tag : Tag) (value : Tree) :
    (tagged tag value).fields? = value.fields? := rfl

@[simp] theorem isNull_tagged (tag : Tag) (value : Tree) :
    (tagged tag value).isNull = value.isNull := rfl

@[simp] theorem isVoid_tagged (tag : Tag) (value : Tree) :
    (tagged tag value).isVoid = value.isVoid := rfl

theorem isText_iff {name : String} {key : Tree} : key.isText name = true ↔ key = .text name := by
  cases key <;> simp [isText]

end Tree

/-- The value of the field of a mapping whose key is the untagged text `name`. -/
def fieldValue? (name : String) (fields : Fields) : Option Tree :=
  (fields.find? (·.1.isText name)).map (·.2)

/-! ## Sizes -/

namespace Tree

theorem sizeOf_untagged_le (value : Tree) : sizeOf value.untagged ≤ sizeOf value := by
  match value with
  | .tagged tag inner =>
    have := inner.sizeOf_untagged_le
    simp only [untagged_tagged, tagged.sizeOf_spec]
    omega
  | .null | .bool _ | .int _ | .float _ | .text _ | .seq _ | .map _ => exact Nat.le_refl _

theorem sizeOf_lt_of_fields? {value : Tree} {fields : Fields} (h : value.fields? = some fields) :
    sizeOf fields < sizeOf value := by
  have hle := value.sizeOf_untagged_le
  unfold fields? at h
  split at h
  · next entries heq =>
    cases h
    rw [heq, map.sizeOf_spec] at hle
    omega
  · cases h

end Tree

theorem sizeOf_lt_of_mem {key value : Tree} {fields : Fields} (h : (key, value) ∈ fields) :
    sizeOf value < sizeOf fields := by
  have := List.sizeOf_lt_of_mem h
  simp only [Prod.mk.sizeOf_spec] at this
  omega

theorem mem_of_fieldValue? {name : String} {fields : Fields} {value : Tree}
    (h : fieldValue? name fields = some value) : (.text name, value) ∈ fields := by
  simp only [fieldValue?, Option.map_eq_some_iff] at h
  obtain ⟨⟨key, value⟩, hfind, rfl⟩ := h
  have hkey := List.find?_some hfind
  rw [Tree.isText_iff] at hkey
  exact hkey ▸ List.mem_of_find?_eq_some hfind

theorem sizeOf_lt_of_fieldValue? {name : String} {fields : Fields} {value : Tree}
    (h : fieldValue? name fields = some value) : sizeOf value < sizeOf fields :=
  sizeOf_lt_of_mem (mem_of_fieldValue? h)

end TypeTable
