import TypeTable.Definition.Fields
import TypeTable.Log.Traced

/-!
# Reading definitions

A definition is read from the body that a document states for it; the types it writes in place are
read from theirs in the same way, each under a name made from its place. The first fault ends the
reading. What is reported about a type written in place comes before the report of the type itself.
-/

namespace TypeTable

open Fault (Cause)

/-- Gives a property its type. A property stated before keeps its place. -/
def setProperty (name : String) (type : TypeExpr) :
    List (String × TypeExpr) → List (String × TypeExpr)
  | [] => [(name, type)]
  | (other, old) :: rest =>
    if other = name then (name, type) :: rest else (other, old) :: setProperty name type rest

/-- The properties that statements in order make: of two under one name the later holds. -/
def collectProperties (stated : List (String × TypeExpr)) : List (String × TypeExpr) :=
  stated.foldl (fun properties entry => setProperty entry.1 entry.2 properties) []

mutual

/-- Reads a body as a type of a kind, without regard to the kind that it states. -/
def Definition.ofFieldsAs (kind : Kind) (name : String) (fields : Fields) :
    Traced Fault Definition := do
  let header ← Header.ofFields name kind.ownFields fields
  match kind with
  | .int =>
    let format ← wordField IntFormat name "format" fields
    return ⟨header, .int format⟩
  | .number =>
    let format ← wordField NumberFormat name "format" fields
    return ⟨header, .number format⟩
  | .bool => return ⟨header, .bool⟩
  | .string =>
    let values ← enumField name fields
    return ⟨header, .string values⟩
  | .array =>
    match _h : elementValue name fields with
    | .error fault => Traced.ofExcept (.error fault)
    | .ok value =>
      let element ← TypeExpr.ofTree name "items" (itemsName name) value
      let container ← wordField Container name "array_type" fields
      return ⟨header, .array container element⟩
  | .object =>
    match _h : propertyEntries name fields with
    | .error fault => Traced.ofExcept (.error fault)
    | .ok entries =>
      let stated ← readProperties name entries
      let properties := collectProperties stated
      let required ← requiredField name (properties.map (·.1)) fields
      return ⟨header, .object properties required⟩
termination_by sizeOf fields
decreasing_by
  · exact sizeOf_lt_of_elementValue _h
  · exact sizeOf_lt_of_propertyEntries _h

/-- Reads the type of the field `label` of `owner`: a reference, or a type written in place that is
called `name`. -/
def TypeExpr.ofTree (owner label name : String) (value : Tree) : Traced Fault TypeExpr :=
  match value.reference? with
  | some target => do
    Traced.report (.refers owner label target)
    return .named target
  | none =>
    match _h : value.fields? with
    | none => Traced.ofExcept (.error ((Cause.notAType label value.describe).within owner))
    | some fields => do
      let kind ← Kind.ofFields name fields
      let definition ← Definition.ofFieldsAs kind name fields
      Traced.report (.holds owner label definition.kind name)
      return definition.toInline
termination_by sizeOf value
decreasing_by exact Tree.sizeOf_lt_of_fields? _h

/-- Reads the properties that entries state, one for each entry. -/
def readProperties (owner : String) (entries : Fields) : Traced Fault (List (String × TypeExpr)) :=
  match entries with
  | [] => return []
  | (key, value) :: rest =>
    match key.text? with
    | none => Traced.ofExcept (.error ((Cause.propertyNameNotText key.describe).within owner))
    | some property => do
      let type ← TypeExpr.ofTree owner (propertyLabel property) property value
      let others ← readProperties owner rest
      return (property, type) :: others
termination_by sizeOf entries

end

/-- Reads a body as a type of the kind that it states. -/
def Definition.ofFields (name : String) (fields : Fields) : Traced Fault Definition := do
  let kind ← Kind.ofFields name fields
  Definition.ofFieldsAs kind name fields

/-! ## Equations

What each reader does, without the proofs that what it reads is smaller. -/

theorem Definition.ofFieldsAs_int (name : String) (fields : Fields) :
    Definition.ofFieldsAs .int name fields = do
      let header ← Header.ofFields name (Kind.ownFields .int) fields
      let format ← wordField IntFormat name "format" fields
      return ⟨header, .int format⟩ := by
  rw [ofFieldsAs]

theorem Definition.ofFieldsAs_number (name : String) (fields : Fields) :
    Definition.ofFieldsAs .number name fields = do
      let header ← Header.ofFields name (Kind.ownFields .number) fields
      let format ← wordField NumberFormat name "format" fields
      return ⟨header, .number format⟩ := by
  rw [ofFieldsAs]

theorem Definition.ofFieldsAs_bool (name : String) (fields : Fields) :
    Definition.ofFieldsAs .bool name fields = do
      let header ← Header.ofFields name (Kind.ownFields .bool) fields
      return ⟨header, .bool⟩ := by
  rw [ofFieldsAs]

theorem Definition.ofFieldsAs_string (name : String) (fields : Fields) :
    Definition.ofFieldsAs .string name fields = do
      let header ← Header.ofFields name (Kind.ownFields .string) fields
      let values ← enumField name fields
      return ⟨header, .string values⟩ := by
  rw [ofFieldsAs]

theorem Definition.ofFieldsAs_array (name : String) (fields : Fields) :
    Definition.ofFieldsAs .array name fields = do
      let header ← Header.ofFields name (Kind.ownFields .array) fields
      let value ← elementValue name fields
      let element ← TypeExpr.ofTree name "items" (itemsName name) value
      let container ← wordField Container name "array_type" fields
      return ⟨header, .array container element⟩ := by
  rw [ofFieldsAs]
  congr 1
  funext header
  dsimp only
  split
  · next fault h => rw [h]; rfl
  · next value h => rw [h]; rfl

theorem Definition.ofFieldsAs_object (name : String) (fields : Fields) :
    Definition.ofFieldsAs .object name fields = do
      let header ← Header.ofFields name (Kind.ownFields .object) fields
      let entries ← propertyEntries name fields
      let stated ← readProperties name entries
      let properties := collectProperties stated
      let required ← requiredField name (properties.map (·.1)) fields
      return ⟨header, .object properties required⟩ := by
  rw [ofFieldsAs]
  congr 1
  funext header
  dsimp only
  split
  · next fault h => rw [h]; rfl
  · next entries h => rw [h]; rfl

theorem TypeExpr.ofTree_of_reference {owner label name target : String} {value : Tree}
    (h : value.reference? = some target) :
    TypeExpr.ofTree owner label name value =
      ⟨[.refers owner label target], .ok (.named target)⟩ := by
  rw [ofTree]
  split
  · next found hfound =>
    rw [h] at hfound
    cases hfound
    rfl
  · next hnone => rw [h] at hnone; cases hnone

theorem TypeExpr.ofTree_of_fields {owner label name : String} {value : Tree} {fields : Fields}
    (hreference : value.reference? = none) (h : value.fields? = some fields) :
    TypeExpr.ofTree owner label name value = do
      let definition ← Definition.ofFields name fields
      Traced.report (.holds owner label definition.kind name)
      return definition.toInline := by
  rw [ofTree, Definition.ofFields, bind_assoc]
  split
  · next target htarget => rw [hreference] at htarget; cases htarget
  · split
    · next hnone => rw [h] at hnone; cases hnone
    · next found hfound =>
      rw [h] at hfound
      cases hfound
      rfl

theorem TypeExpr.ofTree_of_neither {owner label name : String} {value : Tree}
    (hreference : value.reference? = none) (h : value.fields? = none) :
    TypeExpr.ofTree owner label name value =
      Traced.ofExcept (.error ((Cause.notAType label value.describe).within owner)) := by
  rw [ofTree]
  split
  · next target htarget => rw [hreference] at htarget; cases htarget
  · split
    · rfl
    · next found hfound => rw [h] at hfound; cases hfound

@[simp] theorem readProperties_nil (owner : String) : readProperties owner [] = pure [] := by
  rw [readProperties]

theorem readProperties_cons (owner : String) (entry : Tree × Tree) (rest : Fields) :
    readProperties owner (entry :: rest) =
      match entry.1.text? with
      | none =>
        Traced.ofExcept (.error ((Cause.propertyNameNotText entry.1.describe).within owner))
      | some property => do
        let type ← TypeExpr.ofTree owner (propertyLabel property) property entry.2
        let others ← readProperties owner rest
        return (property, type) :: others := by
  rw [readProperties]

end TypeTable
