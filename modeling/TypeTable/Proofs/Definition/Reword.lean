import TypeTable.Proofs.Definition.Reading
import TypeTable.Proofs.Tree.Reword

/-!
# Reading reworded bodies

A body in other words gives the same type in these words, or the same fault
(`Definition.outcome_ofFields_rewordBody`). Nothing that is checked depends on the text of a
description, or on what a reference refers to, and no fault shows them.
-/

namespace TypeTable

/-! ## Reworded types -/

/-- A header in other words. -/
def Header.reword (w : Rewording) (header : Header) : Header :=
  ⟨header.name, header.description.map w.description⟩

mutual

/-- A shape with the types that it holds in other words. -/
def Shape.reword (w : Rewording) : Shape → Shape
  | .array container element => .array container (element.reword w)
  | .object properties required => .object (rewordTypes w properties) required
  | shape => shape
termination_by structural shape => shape

/-- A type expression in other words. -/
def TypeExpr.reword (w : Rewording) : TypeExpr → TypeExpr
  | .named target => .named (w.target target)
  | .inline header shape => .inline (header.reword w) (shape.reword w)
termination_by structural type => type

/-- Properties with their types in other words. -/
def rewordTypes (w : Rewording) : List (String × TypeExpr) → List (String × TypeExpr)
  | [] => []
  | (name, type) :: rest => (name, type.reword w) :: rewordTypes w rest
termination_by structural properties => properties

end

/-- A definition in other words. -/
def Definition.reword (w : Rewording) (d : Definition) : Definition :=
  ⟨d.toHeader.reword w, d.shape.reword w⟩

variable (w : Rewording)

@[simp] theorem Definition.name_reword (d : Definition) : (d.reword w).name = d.name := rfl

theorem rewordTypes_eq (properties : List (String × TypeExpr)) :
    rewordTypes w properties = properties.map fun property => (property.1, property.2.reword w) := by
  induction properties with
  | nil => rfl
  | cons property rest ih => rw [rewordTypes, ih, List.map_cons]

theorem keys_rewordTypes (properties : List (String × TypeExpr)) :
    (rewordTypes w properties).map (·.1) = properties.map (·.1) := by
  rw [rewordTypes_eq, List.map_map]
  rfl

theorem collectProperties_rewordTypes (stated : List (String × TypeExpr)) :
    collectProperties (rewordTypes w stated) = rewordTypes w (collectProperties stated) := by
  rw [rewordTypes_eq, rewordTypes_eq]
  refine collectProperties_map Function.injective_id (fun property => ?_) stated
  rfl

/-! ## Single fields -/

theorem Kind.ofFields_rewordBody (name : String) (fields : Fields) :
    Kind.ofFields name (Tree.rewordBody w fields) = Kind.ofFields name fields := by
  rw [Kind.ofFields, fieldValue?_rewordBody_of_ne w fields (by decide), Kind.ofFields]

theorem wordField_rewordBody (α : Type) [Spelled α] [Inhabited α] (name : String) {field : String}
    (hfield : field ∉ ["items", "properties", "description"]) (fields : Fields) :
    wordField α name field (Tree.rewordBody w fields) = wordField α name field fields := by
  rw [wordField, fieldValue?_rewordBody_of_ne w fields hfield, wordField]

theorem enumField_rewordBody (name : String) (fields : Fields) :
    enumField name (Tree.rewordBody w fields) = enumField name fields := by
  rw [enumField, fieldValue?_rewordBody_of_ne w fields (by decide), enumField]

theorem requiredField_rewordBody (name : String) (declared : List String) (fields : Fields) :
    requiredField name declared (Tree.rewordBody w fields) =
      requiredField name declared fields := by
  rw [requiredField, fieldValue?_rewordBody_of_ne w fields (by decide), requiredField]

theorem Header.ofFields_rewordBody (name : String) (own : List String) (fields : Fields) :
    Header.ofFields name own (Tree.rewordBody w fields) =
      (Header.ofFields name own fields).map (Header.reword w) := by
  rw [Header.ofFields_eq, Header.ofFields_eq, Tree.rewordBody_eq,
    find?_key_map _ fun key => !isFieldKey own key, ← Tree.rewordBody_eq]
  cases (fields.find? fun entry => !isFieldKey own entry.1).map (·.1) with
  | some key => rfl
  | none =>
    rw [fieldValue?_description_rewordBody]
    cases fieldValue? "description" fields with
    | none => rfl
    | some value => cases value <;> rfl

theorem elementValue_rewordBody (name : String) (fields : Fields) :
    elementValue name (Tree.rewordBody w fields) =
      (elementValue name fields).map (Tree.reword w) :=
  elementValue_map (fieldValue?_items_rewordBody w fields) (Tree.isVoid_reword w)

theorem propertyEntries_rewordBody (name : String) (fields : Fields) :
    propertyEntries name (Tree.rewordBody w fields) =
      (propertyEntries name fields).map (Tree.rewordProperties w) := by
  refine propertyEntries_map (fieldValue?_properties_rewordBody w fields)
    (Tree.fields?_rewordBlock w) ?_
  intro entries
  cases entries <;> simp [Tree.rewordProperties]

/-! ## Values that hold types -/

/-- A value that in other words gives the same type in these words, or the same fault. -/
def RewordsAsType (value : Tree) : Prop :=
  ∀ owner label name, (TypeExpr.ofTree owner label name (value.reword w)).outcome =
    (TypeExpr.ofTree owner label name value).outcome.map (TypeExpr.reword w)

theorem outcome_readProperties_reword (owner : String) {entries : Fields}
    (h : ∀ entry ∈ entries, RewordsAsType w entry.2) :
    (readProperties owner (Tree.rewordProperties w entries)).outcome =
      (readProperties owner entries).outcome.map (rewordTypes w) := by
  induction entries with
  | nil =>
    rw [Tree.rewordProperties, readProperties_nil]
    rfl
  | cons entry rest ih =>
    obtain ⟨hfirst, hrest⟩ := List.forall_mem_cons.mp h
    rw [Tree.rewordProperties, readProperties_cons, readProperties_cons]
    cases hkey : entry.1.text? with
    | none => rfl
    | some property =>
      refine Traced.outcome_bind_map (hfirst owner (propertyLabel property) property) fun type => ?_
      exact Traced.outcome_bind_map (ih hrest) fun others => rfl

/-! ## Bodies -/

/-- A body in other words gives the same type in these words, or the same fault, if the values that
state types inside it do. -/
theorem outcome_ofFieldsAs_reword {fields : Fields}
    (hitems : ∀ value, fieldValue? "items" fields = some value → RewordsAsType w value)
    (hproperties : ∀ value entries, fieldValue? "properties" fields = some value →
      value.fields? = some entries → ∀ entry ∈ entries, RewordsAsType w entry.2)
    (kind : Kind) (name : String) :
    (Definition.ofFieldsAs kind name (Tree.rewordBody w fields)).outcome =
      (Definition.ofFieldsAs kind name fields).outcome.map (Definition.reword w) := by
  have hheader : ∀ own, (Header.ofFields name own (Tree.rewordBody w fields)) =
      (Header.ofFields name own fields).map (Header.reword w) :=
    fun own => Header.ofFields_rewordBody w name own fields
  cases kind with
  | int =>
    rw [Definition.ofFieldsAs_int, Definition.ofFieldsAs_int,
      wordField_rewordBody w IntFormat name (by decide)]
    refine Traced.outcome_bind_map (hheader _) fun header => ?_
    exact Traced.outcome_bind_map_id fun format => rfl
  | number =>
    rw [Definition.ofFieldsAs_number, Definition.ofFieldsAs_number,
      wordField_rewordBody w NumberFormat name (by decide)]
    refine Traced.outcome_bind_map (hheader _) fun header => ?_
    exact Traced.outcome_bind_map_id fun format => rfl
  | bool =>
    rw [Definition.ofFieldsAs_bool, Definition.ofFieldsAs_bool]
    exact Traced.outcome_bind_map (hheader _) fun header => rfl
  | string =>
    rw [Definition.ofFieldsAs_string, Definition.ofFieldsAs_string, enumField_rewordBody]
    refine Traced.outcome_bind_map (hheader _) fun header => ?_
    exact Traced.outcome_bind_map_id fun values => rfl
  | array =>
    rw [Definition.ofFieldsAs_array, Definition.ofFieldsAs_array, elementValue_rewordBody,
      wordField_rewordBody w Container name (by decide)]
    refine Traced.outcome_bind_map (hheader _) fun header => ?_
    cases helement : elementValue name fields with
    | error fault => rfl
    | ok value =>
      have hvalue := hitems value (elementValue_eq_ok helement).1 name "items" (itemsName name)
      simp only [Except.map, Traced.lift_ok, pure_bind]
      refine Traced.outcome_bind_map hvalue fun element => ?_
      exact Traced.outcome_bind_map_id fun container => rfl
  | object =>
    rw [Definition.ofFieldsAs_object, Definition.ofFieldsAs_object, propertyEntries_rewordBody]
    refine Traced.outcome_bind_map (hheader _) fun header => ?_
    cases hentries : propertyEntries name fields with
    | error fault => rfl
    | ok entries =>
      obtain ⟨value, hvalue, hfields⟩ := propertyEntries_eq_ok hentries
      have hread := outcome_readProperties_reword w name (hproperties value entries hvalue hfields)
      simp only [Except.map, Traced.lift_ok, pure_bind]
      refine Traced.outcome_bind_map hread fun stated => ?_
      rw [collectProperties_rewordTypes, keys_rewordTypes, requiredField_rewordBody]
      exact Traced.outcome_bind_map_id fun required => rfl

theorem outcome_ofFields_reword :
    (∀ fields name, (Definition.ofFields name (Tree.rewordBody w fields)).outcome =
      (Definition.ofFields name fields).outcome.map (Definition.reword w)) ∧
      ∀ value, RewordsAsType w value := by
  apply body_induction
  case body =>
    intro fields hitems hproperties name
    rw [Definition.ofFields, Definition.ofFields, Kind.ofFields_rewordBody]
    exact Traced.outcome_bind_map_id fun kind =>
      outcome_ofFieldsAs_reword w hitems hproperties kind name
  case held =>
    intro value hbody owner label name
    cases hreference : value.reference? with
    | some target =>
      have hreworded : (value.reword w).reference? = some (w.target target) := by
        rw [Tree.reference?_reword, hreference, Option.map_some]
      rw [TypeExpr.ofTree_of_reference hreference, TypeExpr.ofTree_of_reference hreworded]
      rfl
    | none =>
      cases hfields : value.fields? with
      | none =>
        rw [Tree.reword_eq_self w hreference hfields, TypeExpr.ofTree_of_neither hreference hfields]
        rfl
      | some fields =>
        have hnone : (value.reword w).reference? = none := by
          rw [Tree.reference?_reword, hreference, Option.map_none]
        have hreworded : (value.reword w).fields? = some (Tree.rewordBody w fields) := by
          rw [Tree.fields?_reword, hfields, Option.map_some]
        rw [TypeExpr.ofTree_of_fields hreference hfields, TypeExpr.ofTree_of_fields hnone hreworded]
        exact Traced.outcome_bind_map (hbody fields hfields name) fun d => rfl

/-- A body in other words gives the same definition in these words, or the same fault. -/
theorem Definition.outcome_ofFields_rewordBody (name : String) (fields : Fields) :
    (Definition.ofFields name (Tree.rewordBody w fields)).outcome =
      (Definition.ofFields name fields).outcome.map (Definition.reword w) :=
  (outcome_ofFields_reword w).1 fields name

end TypeTable
