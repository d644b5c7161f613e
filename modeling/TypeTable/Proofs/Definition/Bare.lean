import TypeTable.Definition.Reading
import TypeTable.Proofs.Definition.Fields
import TypeTable.Proofs.Log.Outcome
import TypeTable.Proofs.Tree.Bare

/-!
# Reading bare bodies

Tags on values change nothing that is read. `Definition.mapError_ofFields_bare` says that a body and
the bare one give the same definition with the same events, or faults in the same context. The
cause of a fault may differ, for it shows the value that was found, with its tags.
-/

namespace TypeTable

/-! ## Single fields -/

theorem Tree.reference?_bare (value : Tree) : value.bare.reference? = value.reference? := by
  rw [reference?, text?_bare, reference?]

theorem readWord_bare (α : Type) [Spelled α] (owner : Option String) (field : String)
    (value : Tree) :
    (readWord α owner field value.bare).mapError Fault.context =
      (readWord α owner field value).mapError Fault.context := by
  unfold readWord
  rw [Tree.text?_bare]
  split <;> rfl

theorem wordField_bareEntries (α : Type) [Spelled α] [Inhabited α] (name field : String)
    (hfield : field ≠ "description") (fields : Fields) :
    (wordField α name field (Tree.bareEntries fields)).mapError Fault.context =
      (wordField α name field fields).mapError Fault.context := by
  unfold wordField
  rw [fieldValue?_bareEntries hfield]
  cases fieldValue? field fields with
  | none => rfl
  | some value => exact readWord_bare α name field value

theorem Kind.ofFields_bareEntries (name : String) (fields : Fields) :
    (Kind.ofFields name (Tree.bareEntries fields)).mapError Fault.context =
      (Kind.ofFields name fields).mapError Fault.context := by
  unfold Kind.ofFields
  rw [fieldValue?_bareEntries (by decide)]
  cases fieldValue? "type" fields with
  | none => rfl
  | some value => exact readWord_bare Kind name "type" value

/-- The header is in the keys and the description, and both stay. -/
theorem Header.ofFields_bareEntries (name : String) (own : List String) (fields : Fields) :
    Header.ofFields name own (Tree.bareEntries fields) = Header.ofFields name own fields := by
  rw [Header.ofFields_eq, fieldValue?_description_bareEntries, Tree.bareEntries_eq,
    find?_key_map _ fun key => !isFieldKey own key, Header.ofFields_eq]

theorem enumValues_bare (name : String) (seen : List String) (items : List Tree) :
    enumValues name seen (items.map Tree.bare) = enumValues name seen items := by
  induction items generalizing seen with
  | nil => rfl
  | cons item rest ih => simp only [List.map_cons, enumValues, Tree.text?_bare, ih]

theorem enumField_bareEntries (name : String) (fields : Fields) :
    enumField name (Tree.bareEntries fields) = enumField name fields := by
  unfold enumField
  rw [fieldValue?_bareEntries (by decide)]
  cases fieldValue? "enum" fields with
  | none => rfl
  | some value =>
    have henum : enumeration name value.bare = enumeration name value := by
      unfold enumeration
      rw [Tree.items?_bare]
      cases value.items? with
      | none => rfl
      | some items =>
        cases items with
        | nil => rfl
        | cons item rest => exact enumValues_bare name [] (item :: rest)
    exact congrArg (Except.map some) henum

theorem requiredNames_bare (name : String) (declared seen : List String) (items : List Tree) :
    requiredNames name declared seen (items.map Tree.bare) =
      requiredNames name declared seen items := by
  induction items generalizing seen with
  | nil => rfl
  | cons item rest ih => simp only [List.map_cons, requiredNames, Tree.text?_bare, ih]

theorem requiredField_bareEntries (name : String) (declared : List String) (fields : Fields) :
    requiredField name declared (Tree.bareEntries fields) =
      requiredField name declared fields := by
  unfold requiredField
  rw [fieldValue?_bareEntries (by decide)]
  cases fieldValue? "required" fields with
  | none => rfl
  | some value =>
    simp only [Option.map_some, Tree.isVoid_bare, Tree.items?_bare]
    cases value.items? with
    | none => rfl
    | some items => simp only [Option.map_some, requiredNames_bare]

/-! ## Fields that hold types -/

theorem elementValue_bareEntries (name : String) (fields : Fields) :
    elementValue name (Tree.bareEntries fields) = (elementValue name fields).map Tree.bare :=
  elementValue_map (fieldValue?_bareEntries (by decide) fields) Tree.isVoid_bare

theorem propertyEntries_bareEntries (name : String) (fields : Fields) :
    propertyEntries name (Tree.bareEntries fields) =
      (propertyEntries name fields).map Tree.bareEntries := by
  refine propertyEntries_map (fieldValue?_bareEntries (by decide) fields) Tree.fields?_bare ?_
  intro entries
  rw [Tree.bareEntries_eq, List.map_eq_nil_iff]

/-- A value that is read as the bare one is, up to the cause of a fault. -/
def ReadsAsBare (value : Tree) : Prop :=
  ∀ owner label name, (TypeExpr.ofTree owner label name value.bare).mapError Fault.context =
    (TypeExpr.ofTree owner label name value).mapError Fault.context

theorem readProperties_bareEntries (owner : String) {entries : Fields}
    (h : ∀ entry ∈ entries, ReadsAsBare entry.2) :
    (readProperties owner (Tree.bareEntries entries)).mapError Fault.context =
      (readProperties owner entries).mapError Fault.context := by
  induction entries with
  | nil => rfl
  | cons entry rest ih =>
    obtain ⟨hfirst, hrest⟩ := List.forall_mem_cons.mp h
    rw [Tree.bareEntries, readProperties_cons, readProperties_cons]
    cases hkey : entry.1.text? with
    | none => rfl
    | some property =>
      have hvalue : (TypeExpr.ofTree owner (propertyLabel property) property
          (Tree.bareUnder entry.1 entry.2)).mapError Fault.context =
            (TypeExpr.ofTree owner (propertyLabel property) property entry.2).mapError
              Fault.context := by
        unfold Tree.bareUnder
        split
        · rfl
        · exact hfirst owner (propertyLabel property) property
      simp only [Traced.mapError_bind, ih hrest]
      exact congrArg (· >>= _) hvalue

/-! ## Bodies -/

/-- A body is read as the bare one is, if the values that hold types are. -/
theorem mapError_ofFieldsAs_bare {fields : Fields}
    (hitems : ∀ value, fieldValue? "items" fields = some value → ReadsAsBare value)
    (hproperties : ∀ value entries, fieldValue? "properties" fields = some value →
      value.fields? = some entries → ∀ entry ∈ entries, ReadsAsBare entry.2)
    (kind : Kind) (name : String) :
    (Definition.ofFieldsAs kind name (Tree.bareEntries fields)).mapError Fault.context =
      (Definition.ofFieldsAs kind name fields).mapError Fault.context := by
  cases kind with
  | int =>
    simp only [Definition.ofFieldsAs_int, Traced.mapError_bind, Traced.mapError_lift,
      Header.ofFields_bareEntries, wordField_bareEntries IntFormat name "format" (by decide)]
  | number =>
    simp only [Definition.ofFieldsAs_number, Traced.mapError_bind, Traced.mapError_lift,
      Header.ofFields_bareEntries, wordField_bareEntries NumberFormat name "format" (by decide)]
  | bool => simp only [Definition.ofFieldsAs_bool, Header.ofFields_bareEntries]
  | string =>
    simp only [Definition.ofFieldsAs_string, Header.ofFields_bareEntries, enumField_bareEntries]
  | array =>
    rw [Definition.ofFieldsAs_array, Definition.ofFieldsAs_array, Header.ofFields_bareEntries,
      elementValue_bareEntries]
    cases helement : elementValue name fields with
    | error fault => rfl
    | ok value =>
      have hvalue := hitems value (elementValue_eq_ok helement).1 name "items" (itemsName name)
      have hcontainer := wordField_bareEntries Container name "array_type" (by decide) fields
      simp only [Except.map, Traced.lift_ok, pure_bind, Traced.mapError_bind, Traced.mapError_lift,
        hvalue, hcontainer]
  | object =>
    rw [Definition.ofFieldsAs_object, Definition.ofFieldsAs_object, Header.ofFields_bareEntries,
      propertyEntries_bareEntries]
    cases hentries : propertyEntries name fields with
    | error fault => rfl
    | ok entries =>
      obtain ⟨value, hvalue, hfields⟩ := propertyEntries_eq_ok hentries
      have hread := readProperties_bareEntries name (hproperties value entries hvalue hfields)
      simp only [Except.map, Traced.lift_ok, pure_bind, Traced.mapError_bind, hread,
        requiredField_bareEntries]

theorem mapError_ofFields_bare :
    (∀ fields name, (Definition.ofFields name (Tree.bareEntries fields)).mapError Fault.context =
      (Definition.ofFields name fields).mapError Fault.context) ∧ ∀ value, ReadsAsBare value := by
  apply body_induction
  case body =>
    intro fields hitems hproperties name
    simp only [Definition.ofFields, Traced.mapError_bind, Traced.mapError_lift,
      Kind.ofFields_bareEntries, mapError_ofFieldsAs_bare hitems hproperties]
  case held =>
    intro value hbody owner label name
    cases hreference : value.reference? with
    | some target =>
      rw [TypeExpr.ofTree_of_reference hreference,
        TypeExpr.ofTree_of_reference (value.reference?_bare.trans hreference)]
    | none =>
      have hbare := value.reference?_bare.trans hreference
      cases hfields : value.fields? with
      | none =>
        have hnone : value.bare.fields? = none := by
          rw [Tree.fields?_bare, hfields, Option.map_none]
        rw [TypeExpr.ofTree_of_neither hreference hfields, TypeExpr.ofTree_of_neither hbare hnone]
        rfl
      | some fields =>
        have hsome : value.bare.fields? = some (Tree.bareEntries fields) := by
          rw [Tree.fields?_bare, hfields, Option.map_some]
        simp only [TypeExpr.ofTree_of_fields hreference hfields,
          TypeExpr.ofTree_of_fields hbare hsome, Traced.mapError_bind, hbody fields hfields name]

/-- A body and the bare one are read with the same events, and give the same definition or faults in
the same context. -/
theorem Definition.mapError_ofFields_bare (name : String) (fields : Fields) :
    (Definition.ofFields name (Tree.bareEntries fields)).mapError Fault.context =
      (Definition.ofFields name fields).mapError Fault.context :=
  TypeTable.mapError_ofFields_bare.1 fields name

end TypeTable
