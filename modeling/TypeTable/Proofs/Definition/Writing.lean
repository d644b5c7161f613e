import TypeTable.Proofs.Definition.Children
import TypeTable.Proofs.Definition.WellFormed
import TypeTable.Proofs.Tree.Keys

/-!
# Writing definitions

`Definition.toFields` writes a definition as a body, and `TypeExpr.toTree` a type expression as the
value of a field. `Definition.ofFields_toFields` says that reading gives a well-formed definition
back, and `Definition.distinctKeys_toFields` that what is written has no key twice.
-/

namespace TypeTable

/-! ## Bodies as they are written -/

/-- The fields that state a kind and a header. -/
def Header.toFields (kind : Kind) (header : Header) : Fields :=
  (.text "type", .text (word kind)) ::
    match header.description with
    | none => []
    | some description => [(.text "description", .text description)]

mutual

/-- The fields that state a shape besides its kind. -/
def Shape.toFields : Shape → Fields
  | .int format => [(.text "format", .text (word format))]
  | .number format => [(.text "format", .text (word format))]
  | .bool => []
  | .string none => []
  | .string (some values) => [(.text "enum", .seq (values.map .text))]
  | .array container element =>
    [(.text "array_type", .text (word container)), (.text "items", element.toTree)]
  | .object properties required =>
    [(.text "properties", .map (propertiesToFields properties)),
      (.text "required", .seq (required.map .text))]
termination_by structural shape => shape

/-- The value that states a type expression. -/
def TypeExpr.toTree : TypeExpr → Tree
  | .named name => .text ("#" ++ name)
  | .inline header shape => .map (header.toFields shape.kind ++ shape.toFields)
termination_by structural type => type

/-- The entries that state properties. -/
def propertiesToFields : List (String × TypeExpr) → Fields
  | [] => []
  | (name, type) :: rest => (.text name, type.toTree) :: propertiesToFields rest
termination_by structural properties => properties

end

/-- The body that states a definition. -/
def Definition.toFields (d : Definition) : Fields :=
  d.toHeader.toFields d.kind ++ d.shape.toFields

theorem propertiesToFields_eq (properties : List (String × TypeExpr)) :
    propertiesToFields properties = properties.map fun p => (.text p.1, p.2.toTree) := by
  induction properties with
  | nil => rfl
  | cons first rest ih => rw [propertiesToFields, ih, List.map_cons]

/-! ## Keys -/

/-- The keys of the fields are texts among the names, in the order of these. -/
def KeysWithin (names : List String) (fields : Fields) : Prop :=
  ∃ keys : List String, fields.map (·.1) = keys.map .text ∧ keys.Sublist names

theorem KeysWithin.append {names others : List String} {fields rest : Fields}
    (h : KeysWithin names fields) (hrest : KeysWithin others rest) :
    KeysWithin (names ++ others) (fields ++ rest) := by
  obtain ⟨keys, hkeys, hsub⟩ := h
  obtain ⟨more, hmore, hmoresub⟩ := hrest
  exact ⟨keys ++ more, by rw [List.map_append, hkeys, hmore, List.map_append], hsub.append hmoresub⟩

theorem KeysWithin.exists_of_mem {names : List String} {fields : Fields}
    (h : KeysWithin names fields) {entry : Tree × Tree} (hentry : entry ∈ fields) :
    ∃ name ∈ names, entry.1 = .text name := by
  obtain ⟨keys, hkeys, hsub⟩ := h
  obtain ⟨name, hname, heq⟩ := List.mem_map.mp (hkeys ▸ List.mem_map_of_mem hentry)
  exact ⟨name, hsub.subset hname, heq.symm⟩

theorem KeysWithin.fieldValue?_eq_none {names : List String} {fields : Fields}
    (h : KeysWithin names fields) {name : String} (hname : name ∉ names) :
    fieldValue? name fields = none := by
  rw [Option.eq_none_iff_forall_ne_some]
  intro value hvalue
  obtain ⟨other, hother, heq⟩ := h.exists_of_mem (mem_of_fieldValue? hvalue)
  cases heq
  exact hname hother

theorem Header.keysWithin_toFields (kind : Kind) (header : Header) :
    KeysWithin Kind.sharedFields (header.toFields kind) := by
  unfold Header.toFields
  cases header.description with
  | none => exact ⟨["type"], rfl, by decide⟩
  | some description => exact ⟨["type", "description"], rfl, by decide⟩

theorem Shape.keysWithin_toFields (shape : Shape) :
    KeysWithin shape.kind.ownFields shape.toFields := by
  cases shape with
  | int format => exact ⟨["format"], rfl, .refl _⟩
  | number format => exact ⟨["format"], rfl, .refl _⟩
  | bool => exact ⟨[], rfl, .refl _⟩
  | string values =>
    cases values with
    | none => exact ⟨[], rfl, by decide⟩
    | some values => exact ⟨["enum"], rfl, .refl _⟩
  | array container element => exact ⟨["array_type", "items"], rfl, .refl _⟩
  | object properties required => exact ⟨["properties", "required"], rfl, .refl _⟩

/-- The keys of a written body are fields that its kind has. -/
theorem Definition.keysWithin_toFields (d : Definition) :
    KeysWithin (Kind.sharedFields ++ d.kind.ownFields) d.toFields :=
  (d.toHeader.keysWithin_toFields d.kind).append d.shape.keysWithin_toFields

theorem nodup_fieldNames (kind : Kind) : (Kind.sharedFields ++ kind.ownFields).Nodup := by
  cases kind <;> decide

/-! ## Fields of written bodies -/

namespace Definition

theorem fieldValue?_type_toFields (d : Definition) :
    fieldValue? "type" d.toFields = some (.text (word d.kind)) := by
  rw [toFields, Header.toFields, List.cons_append, fieldValue?_cons_text, if_pos rfl]

theorem fieldValue?_description_toFields (d : Definition) :
    fieldValue? "description" d.toFields = d.description.map .text := by
  have hown : "description" ∉ d.kind.ownFields := by
    cases d.kind <;> decide
  rw [toFields, fieldValue?_append, d.shape.keysWithin_toFields.fieldValue?_eq_none hown,
    Option.or_none, Header.toFields, fieldValue?_cons_text, if_neg (by decide)]
  cases d.description with
  | none => rfl
  | some description => simp

/-- A field that not every kind has stands among those of the shape. -/
theorem fieldValue?_own_toFields (d : Definition) {name : String}
    (h : name ∉ Kind.sharedFields) :
    fieldValue? name d.toFields = fieldValue? name d.shape.toFields := by
  rw [toFields, fieldValue?_append,
    (d.toHeader.keysWithin_toFields d.kind).fieldValue?_eq_none h, Option.none_or]

end Definition

/-! ## Reading what was written -/

/-- Properties are read back from their entries if their types are. -/
theorem readsProperties_propertiesToFields {properties : List (String × TypeExpr)}
    (h : ∀ property ∈ properties, ReadsType property.1 property.2.toTree property.2) :
    List.Forall₂ ReadsProperty (propertiesToFields properties) properties := by
  induction properties with
  | nil => exact .nil
  | cons first rest ih =>
    obtain ⟨hfirst, hrest⟩ := List.forall_mem_cons.mp h
    exact .cons ⟨rfl, hfirst⟩ (ih hrest)

/-- Required names that do not repeat are read back from the sequence of them. -/
theorem requiredField_of_nodup {name : String} {declared required : List String} {fields : Fields}
    (hfield : fieldValue? "required" fields = some (.seq (required.map .text)))
    (honce : required.Nodup) (hdeclared : ∀ text ∈ required, text ∈ declared) :
    requiredField name declared fields = .ok required := by
  have hvoid : (Tree.seq (required.map .text)).isVoid = required.isEmpty :=
    (Tree.isVoid_of_items? rfl).trans List.isEmpty_map
  rw [requiredField_eq_ok_iff]
  cases required with
  | nil =>
    refine .inl ⟨fun value hvalue => ?_, rfl⟩
    rw [hfield] at hvalue
    cases hvalue
    exact hvoid
  | cons first rest =>
    refine .inr ⟨_, _, _, hfield, hvoid, rfl, Tree.readAs_map_text _, hdeclared, ?_⟩
    exact (addNew_of_nodup (show ([] ++ first :: rest).Nodup from honce)).symm

/-- The shape of a well-formed definition is read back from its body if its children are. -/
theorem readsShape_toFields {d : Definition} (h : d.WellFormed)
    (hchildren : ∀ child ∈ d.children, ∀ name, TypeExpr.WellFormed name child →
      ReadsType name child.toTree child) : ReadsShape d.name d.toFields d.shape := by
  have hfield : ∀ name, name ∉ Kind.sharedFields →
      fieldValue? name d.toFields = fieldValue? name d.shape.toFields :=
    fun name => d.fieldValue?_own_toFields
  generalize d.toFields = fields at hfield ⊢
  obtain ⟨header, shape⟩ := d
  cases h with
  | @int _ format =>
    refine .int (wordField_eq_ok_iff.mpr (.inr ⟨.text (word format), ?_, rfl⟩))
    exact hfield "format" (by decide)
  | @number _ format =>
    refine .number (wordField_eq_ok_iff.mpr (.inr ⟨.text (word format), ?_, rfl⟩))
    exact hfield "format" (by decide)
  | bool => exact .bool
  | string =>
    refine .string (enumField_eq_ok_iff.mpr (.inl ⟨?_, rfl⟩))
    exact hfield "enum" (by decide)
  | enumeration nonempty distinct =>
    refine .string (enumField_eq_ok_iff.mpr (.inr ⟨_, _, hfield "enum" (by decide), ?_, rfl⟩))
    exact enumeration_eq_ok_iff.mpr ⟨_, rfl, Tree.readAs_map_text _, nonempty, distinct⟩
  | @array _ container element helement =>
    have hitems : fieldValue? "items" fields = some element.toTree := hfield "items" (by decide)
    have htype := hchildren element (List.mem_singleton_self _) _ helement
    refine .array (elementValue_eq_ok_iff.mpr ⟨hitems, htype.isVoid_eq_false⟩) htype ?_
    refine wordField_eq_ok_iff.mpr (.inr ⟨.text (word container), ?_, rfl⟩)
    exact hfield "array_type" (by decide)
  | @object _ properties required nonempty distinct types once declared =>
    have hread := readsProperties_propertiesToFields fun property hproperty =>
      hchildren property.2 (List.mem_map_of_mem hproperty) property.1 (types property hproperty)
    have hentries : propertyEntries header.name fields = .ok (propertiesToFields properties) := by
      refine propertyEntries_eq_ok_iff.mpr ⟨_, hfield "properties" (by decide), rfl, fun hnil => ?_⟩
      rw [hnil, List.forall₂_nil_left_iff] at hread
      exact nonempty hread
    have hrequired : requiredField header.name (properties.map (·.1)) fields = .ok required :=
      requiredField_of_nodup (hfield "required" (by decide)) once declared
    have hcollect := collectProperties_of_nodup distinct
    have hshape := ReadsShape.object hentries hread (hcollect.symm ▸ hrequired)
    rwa [hcollect] at hshape

/-- A well-formed definition is read back from its body if its children are. -/
theorem ofFields_of_children {d : Definition} (h : d.WellFormed)
    (hchildren : ∀ child ∈ d.children, ∀ name, TypeExpr.WellFormed name child →
      ReadsType name child.toTree child) :
    (Definition.ofFields d.name d.toFields).outcome = .ok d := by
  refine Definition.ofFields_eq_ok_iff.mpr ⟨?_, ?_, readsShape_toFields h hchildren⟩
  · exact Kind.ofFields_eq_ok_iff.mpr ⟨_, d.fieldValue?_type_toFields, rfl⟩
  · refine Header.ofFields_eq_ok_iff.mpr ⟨fun entry hentry => ?_, rfl, ?_⟩
    · obtain ⟨field, hfield, hkey⟩ := d.keysWithin_toFields.exists_of_mem hentry
      exact isFieldKey_iff.mpr ⟨field, by rw [hkey]; rfl, hfield⟩
    · exact d.fieldValue?_description_toFields

/-- What is well formed is read back from what it is written as. -/
theorem reads_written :
    (∀ shape, ∀ header : Header, Shape.WellFormed header.name shape →
      (Definition.ofFields header.name (Definition.toFields ⟨header, shape⟩)).outcome =
        .ok ⟨header, shape⟩) ∧
      ∀ type name, TypeExpr.WellFormed name type → ReadsType name type.toTree type := by
  apply type_induction
  case shape =>
    intro shape ih header h
    exact ofFields_of_children h ih
  case named =>
    intro target name _
    exact .named (Tree.reference?_eq_some_iff.mpr rfl)
  case inline =>
    intro header shape ih name h
    cases h with
    | inline hname hshape =>
      subst hname
      exact .inline rfl (ih header hshape)

/-- A well-formed definition is read back from the body that it is written as. -/
theorem Definition.ofFields_toFields {d : Definition} (h : d.WellFormed) :
    (Definition.ofFields d.name d.toFields).outcome = .ok d :=
  reads_written.1 d.shape d.toHeader h

/-! ## Keys of written bodies -/

theorem KeysWithin.distinctKeys {names : List String} {fields : Fields}
    (h : KeysWithin names fields) (hnodup : names.Nodup)
    (hvalues : ∀ entry ∈ fields, entry.2.DistinctKeys) : (Tree.map fields).DistinctKeys := by
  obtain ⟨keys, hkeys, hsub⟩ := h
  exact Tree.distinctKeys_of_texts hkeys (hnodup.sublist hsub) hvalues

theorem Header.distinctKeys_of_mem_toFields {kind : Kind} {header : Header} {entry : Tree × Tree}
    (h : entry ∈ header.toFields kind) : entry.2.DistinctKeys := by
  unfold Header.toFields at h
  rcases List.mem_cons.mp h with rfl | h
  · exact .text _
  · cases hdescription : header.description with
    | none =>
      rw [hdescription] at h
      cases h
    | some description =>
      rw [hdescription] at h
      rw [List.mem_singleton.mp h]
      exact .text _

theorem distinctKeys_written :
    (∀ shape, ∀ header : Header, Shape.WellFormed header.name shape →
      (Tree.map (Definition.toFields ⟨header, shape⟩)).DistinctKeys) ∧
      ∀ type name, TypeExpr.WellFormed name type → type.toTree.DistinctKeys := by
  apply type_induction
  case shape =>
    intro shape ih header h
    refine (Definition.keysWithin_toFields ⟨header, shape⟩).distinctKeys (nodup_fieldNames _) ?_
    intro entry hentry
    rcases List.mem_append.mp hentry with hheader | hshape
    · exact Header.distinctKeys_of_mem_toFields hheader
    · cases h with
      | int | number =>
        rw [List.mem_singleton.mp hshape]
        exact .text _
      | bool | string => cases hshape
      | enumeration =>
        rw [List.mem_singleton.mp hshape]
        exact Tree.distinctKeys_texts _
      | array helement =>
        rcases List.mem_pair.mp hshape with rfl | rfl
        · exact .text _
        · exact ih _ (List.mem_singleton_self _) _ helement
      | @object _ properties required nonempty distinct types =>
        rcases List.mem_pair.mp hshape with rfl | rfl
        · show (Tree.map (propertiesToFields properties)).DistinctKeys
          rw [propertiesToFields_eq]
          refine Tree.distinctKeys_of_texts (by simp) distinct fun entry hentry => ?_
          obtain ⟨property, hproperty, rfl⟩ := List.mem_map.mp hentry
          exact ih property.2 (List.mem_map_of_mem hproperty) property.1 (types property hproperty)
        · exact Tree.distinctKeys_texts _
  case named =>
    intro target name _
    exact .text _
  case inline =>
    intro header shape ih name h
    cases h with
    | inline hname hshape =>
      subst hname
      exact ih header hshape

/-- No mapping in the body of a well-formed definition has two equal keys. -/
theorem Definition.distinctKeys_toFields {d : Definition} (h : d.WellFormed) :
    (Tree.map d.toFields).DistinctKeys :=
  distinctKeys_written.1 d.shape d.toHeader h

end TypeTable
