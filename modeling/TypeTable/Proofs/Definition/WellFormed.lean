import TypeTable.Proofs.Definition.Reading

/-!
# Well-formed types

`Shape.WellFormed` and `TypeExpr.WellFormed` are what holds at every depth of a type that was read:
the names of types written in place follow from where they stand, enumerations and required names do
not repeat, and required names are properties. `Definition.wellFormed_of_ofFields` is the invariant:
reading establishes it, whatever the body.
-/

namespace TypeTable

mutual

/-- The shapes that a type of a name can have. -/
inductive Shape.WellFormed : String → Shape → Prop
  | int {name : String} {format : IntFormat} : Shape.WellFormed name (.int format)
  | number {name : String} {format : NumberFormat} : Shape.WellFormed name (.number format)
  | bool {name : String} : Shape.WellFormed name .bool
  | string {name : String} : Shape.WellFormed name (.string none)
  | enumeration {name : String} {values : List String} (nonempty : values ≠ [])
    (distinct : values.Nodup) : Shape.WellFormed name (.string (some values))
  | array {name : String} {container : Container} {element : TypeExpr}
    (helement : TypeExpr.WellFormed (name ++ "Items") element) :
    Shape.WellFormed name (.array container element)
  | object {name : String} {properties : List (String × TypeExpr)} {required : List String}
    (nonempty : properties ≠ []) (distinct : (properties.map (·.1)).Nodup)
    (types : ∀ property ∈ properties, TypeExpr.WellFormed property.1 property.2)
    (once : required.Nodup) (declared : ∀ name ∈ required, name ∈ properties.map (·.1)) :
    Shape.WellFormed name (.object properties required)

/-- The type expressions that can stand where a type written in place has the name. -/
inductive TypeExpr.WellFormed : String → TypeExpr → Prop
  | named {name target : String} : TypeExpr.WellFormed name (.named target)
  | inline {name : String} {header : Header} {shape : Shape} (hname : header.name = name)
    (hshape : Shape.WellFormed name shape) : TypeExpr.WellFormed name (.inline header shape)

end

/-- A definition is well formed when its shape is one that its name allows. -/
def Definition.WellFormed (d : Definition) : Prop :=
  Shape.WellFormed d.name d.shape

theorem nodup_of_requiredField {name : String} {declared required : List String} {fields : Fields}
    (h : requiredField name declared fields = .ok required) :
    required.Nodup ∧ ∀ text ∈ required, text ∈ declared := by
  rcases requiredField_eq_ok_iff.mp h with ⟨-, rfl⟩ | ⟨_, _, texts, -, -, -, -, hall, rfl⟩
  · exact ⟨List.nodup_nil, by simp⟩
  · refine ⟨nodup_addNew texts List.nodup_nil, fun text htext => hall text ?_⟩
    exact mem_addNew_nil.mp htext

theorem collectProperties_ne_nil {stated : List (String × TypeExpr)} (h : stated ≠ []) :
    collectProperties stated ≠ [] := by
  intro hnil
  have hkeys := keys_collectProperties stated
  obtain ⟨first, rest, rfl⟩ := List.exists_cons_of_ne_nil h
  have hmem : first.1 ∈ addNew [] ((first :: rest).map (·.1)) := mem_addNew_nil.mpr (by simp)
  rw [← hkeys, hnil] at hmem
  cases hmem

/-- The properties that entries make have different names, each with a type that its name allows, if
the values of the entries give such types only. -/
theorem wellFormed_collectProperties {entries : Fields} {stated : List (String × TypeExpr)}
    (hstated : List.Forall₂ ReadsProperty entries stated) (hne : entries ≠ [])
    (hvalues : ∀ entry ∈ entries, ∀ name type, ReadsType name entry.2 type →
      TypeExpr.WellFormed name type) :
    collectProperties stated ≠ [] ∧ ((collectProperties stated).map (·.1)).Nodup ∧
      ∀ property ∈ collectProperties stated, TypeExpr.WellFormed property.1 property.2 := by
  refine ⟨collectProperties_ne_nil ?_, ?_, fun property hproperty => ?_⟩
  · intro hnil
    rw [hnil, List.forall₂_nil_right_iff] at hstated
    exact hne hstated
  · rw [keys_collectProperties]
    exact nodup_addNew _ List.nodup_nil
  · have hmem := mem_of_mem_collectProperties hproperty
    obtain ⟨entry, hentry, -, htype⟩ := hstated.exists_of_mem_right hmem
    exact hvalues entry hentry property.1 property.2 htype

/-- What is read from bodies and from values that hold types is well formed. -/
theorem wellFormed_of_reads :
    (∀ fields name d, (Definition.ofFields name fields).outcome = .ok d →
      Shape.WellFormed name d.shape) ∧
      ∀ value name type, ReadsType name value type → TypeExpr.WellFormed name type := by
  apply body_induction
  case body =>
    intro fields hitems hproperties name d h
    obtain ⟨header, shape⟩ := d
    obtain ⟨-, -, hshape⟩ := Definition.ofFields_eq_ok_iff.mp h
    cases hshape with
    | int => exact .int
    | number => exact .number
    | bool => exact .bool
    | string hvalues =>
      rcases enumField_eq_ok_iff.mp hvalues with ⟨-, rfl⟩ | ⟨_, texts, -, hvalue, rfl⟩
      · exact .string
      · obtain ⟨_, -, -, hne, hnodup⟩ := enumeration_eq_ok_iff.mp hvalue
        exact .enumeration hne hnodup
    | array hvalue helement hcontainer =>
      have hvalue := (elementValue_eq_ok_iff.mp hvalue).1
      exact .array (hitems _ hvalue _ _ helement)
    | object hentries hstated hrequired =>
      obtain ⟨value, hvalue, hfields, hne⟩ := propertyEntries_eq_ok_iff.mp hentries
      obtain ⟨hnonempty, hdistinct, htypes⟩ :=
        wellFormed_collectProperties hstated hne (hproperties value _ hvalue hfields)
      obtain ⟨honce, hdeclared⟩ := nodup_of_requiredField hrequired
      exact .object hnonempty hdistinct htypes honce hdeclared
  case held =>
    intro value hbody name type h
    cases h with
    | named => exact .named
    | inline hfields h => exact .inline (Definition.name_of_ofFields h) (hbody _ hfields _ _ h)

/-- What is read from a body is well formed. -/
theorem Definition.wellFormed_of_ofFields {name : String} {fields : Fields} {d : Definition}
    (h : (Definition.ofFields name fields).outcome = .ok d) : d.WellFormed := by
  obtain rfl := Definition.name_of_ofFields h
  exact wellFormed_of_reads.1 fields d.name d h

end TypeTable
