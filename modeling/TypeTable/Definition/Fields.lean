import TypeTable.Definition.Basic
import TypeTable.Fault
import TypeTable.Tree.Basic

/-!
# The fields of a definition

How each field of a definition's body is read on its own. A field that holds types is only located
here (`elementValue`, `propertyEntries`); `sizeOf_lt_of_elementValue` and
`sizeOf_lt_of_propertyEntries` say that what it holds is smaller than the body.
-/

namespace TypeTable

open Fault (Cause)

/-! ## References -/

/-- The name behind the mark that makes a text a reference. -/
def referenceTarget? (text : String) : Option String :=
  match text.toList with
  | '#' :: name => some (String.ofList name)
  | _ => none

/-- The name that a value refers to, if it reads as a reference. -/
def Tree.reference? (value : Tree) : Option String :=
  value.text?.bind referenceTarget?

/-! ## Words -/

/-- The member of a closed set that a value spells. -/
def readWord (α : Type) [Spelled α] (owner : Option String) (field : String) (value : Tree) :
    Except Fault α :=
  match value.text?.bind Spelled.ofWord? with
  | some member => .ok member
  | none => .error ⟨.wordUnknown field value.describe, owner⟩

/-- The member of a closed set under a field, or the usual one. -/
def wordField (α : Type) [Spelled α] [Inhabited α] (name field : String) (fields : Fields) :
    Except Fault α :=
  match fieldValue? field fields with
  | some value => readWord α name field value
  | none => .ok default

/-- The kind that a body states. -/
def Kind.ofFields (name : String) (fields : Fields) : Except Fault Kind :=
  match fieldValue? "type" fields with
  | some value => readWord Kind name "type" value
  | none => .error ((Cause.fieldMissing "type").within name)

/-! ## The header -/

/-- Whether a key reads as a field that every kind has or as one of `own`. -/
def isFieldKey (own : List String) (key : Tree) : Bool :=
  match key.text? with
  | some field => Kind.sharedFields.contains field || own.contains field
  | none => false

/-- The header of a body that may hold the fields `own` besides the shared ones. -/
def Header.ofFields (name : String) (own : List String) (fields : Fields) : Except Fault Header :=
  match fields.find? fun entry => !isFieldKey own entry.1 with
  | some entry => .error ((Cause.fieldUnknown entry.1.describe).within name)
  | none =>
    match fieldValue? "description" fields with
    | none => .ok ⟨name, none⟩
    | some (.text description) => .ok ⟨name, some description⟩
    | some _ => .error (Cause.descriptionNotText.within name)

/-! ## Enumerations -/

/-- The values of an enumeration behind those seen so far. -/
def enumValues (name : String) (seen : List String) : List Tree → Except Fault (List String)
  | [] => .ok seen
  | item :: rest =>
    match item.text? with
    | none => .error (Cause.enumNotTexts.within name)
    | some value =>
      if seen.contains value then .error ((Cause.enumRepeated value).within name)
      else enumValues name (seen ++ [value]) rest

/-- The values of an enumeration: one text or more, none of them twice. -/
def enumeration (name : String) (value : Tree) : Except Fault (List String) :=
  match value.items? with
  | none => .error (Cause.enumNotTexts.within name)
  | some [] => .error (Cause.enumEmpty.within name)
  | some items => enumValues name [] items

/-- The enumeration of a body, if it has one. -/
def enumField (name : String) (fields : Fields) : Except Fault (Option (List String)) :=
  match fieldValue? "enum" fields with
  | none => .ok none
  | some value => (enumeration name value).map some

/-! ## Required properties -/

/-- The required names behind those seen so far. A name that is seen again adds nothing. -/
def requiredNames (name : String) (declared seen : List String) :
    List Tree → Except Fault (List String)
  | [] => .ok seen
  | item :: rest =>
    match item.text? with
    | none => .error (Cause.requiredNotNames.within name)
    | some property =>
      if declared.contains property then
        let seen := if seen.contains property then seen else seen ++ [property]
        requiredNames name declared seen rest
      else .error ((Cause.requiredUndeclared property).within name)

/-- The required properties of a body, all of them declared. -/
def requiredField (name : String) (declared : List String) (fields : Fields) :
    Except Fault (List String) :=
  match fieldValue? "required" fields with
  | none => .ok []
  | some value =>
    if value.isVoid then .ok []
    else
      match value.items? with
      | none => .error (Cause.requiredNotNames.within name)
      | some items => requiredNames name declared [] items

/-! ## Fields that hold types -/

/-- The value that states the element type of an array. -/
def elementValue (name : String) (fields : Fields) : Except Fault Tree :=
  match fieldValue? "items" fields with
  | none => .error (Cause.itemsMissing.within name)
  | some value => if value.isVoid then .error (Cause.itemsMissing.within name) else .ok value

/-- The entries that state the properties of an object, at least one. -/
def propertyEntries (name : String) (fields : Fields) : Except Fault Fields :=
  match fieldValue? "properties" fields with
  | none => .error ((Cause.fieldMissing "properties").within name)
  | some value =>
    match value.fields? with
    | none | some [] => .error (Cause.propertiesNotMapping.within name)
    | some (entry :: rest) => .ok (entry :: rest)

/-- A property in an error message. -/
def propertyLabel (property : String) : String :=
  "property '" ++ property ++ "'"

theorem elementValue_eq_ok {name : String} {fields : Fields} {value : Tree}
    (h : elementValue name fields = .ok value) :
    fieldValue? "items" fields = some value ∧ value.isVoid = false := by
  unfold elementValue at h
  split at h
  · cases h
  · next found heq =>
    split at h
    · cases h
    · next hvoid =>
      cases h
      exact ⟨heq, by simpa using hvoid⟩

theorem propertyEntries_eq_ok {name : String} {fields entries : Fields}
    (h : propertyEntries name fields = .ok entries) :
    ∃ value, fieldValue? "properties" fields = some value ∧ value.fields? = some entries := by
  unfold propertyEntries at h
  split at h
  · cases h
  · next value heq =>
    split at h
    · cases h
    · cases h
    · next entry rest hfields =>
      cases h
      exact ⟨value, heq, hfields⟩

theorem sizeOf_lt_of_elementValue {name : String} {fields : Fields} {value : Tree}
    (h : elementValue name fields = .ok value) : sizeOf value < sizeOf fields :=
  sizeOf_lt_of_fieldValue? (elementValue_eq_ok h).1

theorem sizeOf_lt_of_propertyEntries {name : String} {fields entries : Fields}
    (h : propertyEntries name fields = .ok entries) : sizeOf entries < sizeOf fields := by
  obtain ⟨value, hvalue, hentries⟩ := propertyEntries_eq_ok h
  exact Nat.lt_trans (Tree.sizeOf_lt_of_fields? hentries) (sizeOf_lt_of_fieldValue? hvalue)

end TypeTable
