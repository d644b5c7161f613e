import TypeTable.Definition.Reading
import TypeTable.Proofs.Correspondence
import TypeTable.Proofs.Definition.Fields
import TypeTable.Proofs.Log.Outcome

/-!
# What is read from a body

The readers of definitions say field by field how a body is taken apart. `ReadsType` and
`ReadsShape` say of a value and of a body what they give when nothing is wrong, and
`TypeExpr.ofTree_eq_ok_iff`, `Definition.ofFieldsAs_eq_ok_iff` and `Definition.ofFields_eq_ok_iff`
that the readers give this and nothing else. What is true of every type that is read is proved by
`body_induction` over these three.
-/

namespace TypeTable

/-! ## Properties that are stated more than once -/

theorem keys_setProperty (name : String) (type : TypeExpr) (properties : List (String × TypeExpr)) :
    (setProperty name type properties).map (·.1) = addNew (properties.map (·.1)) [name] := by
  rw [addNew_cons, addNew_nil]
  induction properties with
  | nil => rfl
  | cons property rest ih =>
    obtain ⟨other, old⟩ := property
    simp only [setProperty, List.map_cons, List.contains_cons, Bool.or_eq_true, beq_iff_eq]
    by_cases heq : other = name
    · rw [if_pos heq, if_pos (.inl heq.symm), List.map_cons, heq]
    · rw [if_neg heq, List.map_cons, ih]
      by_cases hmem : (rest.map (·.1)).contains name = true
      · rw [if_pos hmem, if_pos (.inr hmem)]
      · rw [if_neg hmem, if_neg (not_or.mpr ⟨fun h => heq h.symm, hmem⟩)]
        rfl

theorem mem_setProperty {name : String} {type : TypeExpr} {properties : List (String × TypeExpr)}
    {property : String × TypeExpr} (h : property ∈ setProperty name type properties) :
    property = (name, type) ∨ property ∈ properties := by
  induction properties with
  | nil => exact .inl (List.mem_singleton.mp h)
  | cons first rest ih =>
    unfold setProperty at h
    split at h
    · exact (List.mem_cons.mp h).imp_right (List.mem_cons_of_mem _)
    · rcases List.mem_cons.mp h with rfl | h
      · exact .inr (List.mem_cons_self ..)
      · exact (ih h).imp_right (List.mem_cons_of_mem _)

theorem setProperty_of_not_mem {name : String} {type : TypeExpr}
    {properties : List (String × TypeExpr)} (h : name ∉ properties.map (·.1)) :
    setProperty name type properties = properties ++ [(name, type)] := by
  induction properties with
  | nil => rfl
  | cons first rest ih =>
    rw [List.map_cons, List.mem_cons, not_or] at h
    rw [setProperty, if_neg (Ne.symm h.1), ih h.2, List.cons_append]

/-- Statements in order, put behind properties that are there. -/
theorem keys_foldl_setProperty (stated properties : List (String × TypeExpr)) :
    (stated.foldl (fun properties entry => setProperty entry.1 entry.2 properties)
      properties).map (·.1) = addNew (properties.map (·.1)) (stated.map (·.1)) := by
  induction stated generalizing properties with
  | nil => rfl
  | cons first rest ih =>
    rw [List.foldl_cons, ih, keys_setProperty, List.map_cons, ← addNew_append,
      List.singleton_append]

/-- The names of the properties are those stated, each of them once. -/
theorem keys_collectProperties (stated : List (String × TypeExpr)) :
    (collectProperties stated).map (·.1) = addNew [] (stated.map (·.1)) :=
  keys_foldl_setProperty stated []

theorem mem_foldl_setProperty {stated properties : List (String × TypeExpr)}
    {property : String × TypeExpr}
    (h : property ∈ stated.foldl (fun properties entry => setProperty entry.1 entry.2 properties)
      properties) : property ∈ properties ∨ property ∈ stated := by
  induction stated generalizing properties with
  | nil => exact .inl h
  | cons first rest ih =>
    rcases ih h with hold | hrest
    · rcases mem_setProperty hold with rfl | hold
      · exact .inr (List.mem_cons_self ..)
      · exact .inl hold
    · exact .inr (List.mem_cons_of_mem _ hrest)

/-- A property is one of those that were stated. -/
theorem mem_of_mem_collectProperties {stated : List (String × TypeExpr)}
    {property : String × TypeExpr} (h : property ∈ collectProperties stated) :
    property ∈ stated :=
  (mem_foldl_setProperty h).resolve_left (List.not_mem_nil)

theorem foldl_setProperty_of_nodup {stated properties : List (String × TypeExpr)}
    (h : ((properties ++ stated).map (·.1)).Nodup) :
    stated.foldl (fun properties entry => setProperty entry.1 entry.2 properties) properties =
      properties ++ stated := by
  induction stated generalizing properties with
  | nil => simp
  | cons first rest ih =>
    have hnew : first.1 ∉ properties.map (·.1) := by
      rw [List.map_append, List.nodup_append] at h
      exact fun hmem => h.2.2 _ hmem first.1 (by simp) rfl
    rw [List.foldl_cons, setProperty_of_not_mem hnew, ih (by simpa using h), List.append_assoc,
      List.singleton_append]

/-! Statements are changed one by one, their names by an injective function. -/

section Change

variable {f : String → String} {change : String × TypeExpr → String × TypeExpr}

theorem setProperty_map (hf : Function.Injective f) (hname : ∀ entry, (change entry).1 = f entry.1)
    (entry : String × TypeExpr) (properties : List (String × TypeExpr)) :
    setProperty (change entry).1 (change entry).2 (properties.map change) =
      (setProperty entry.1 entry.2 properties).map change := by
  induction properties with
  | nil => rfl
  | cons first rest ih =>
    rw [List.map_cons, setProperty, setProperty, ih]
    by_cases h : first.1 = entry.1
    · rw [if_pos (by rw [hname, hname, h]), if_pos h, List.map_cons]
    · rw [if_neg (by rw [hname, hname]; exact fun heq => h (hf heq)), if_neg h, List.map_cons]

theorem foldl_setProperty_map (hf : Function.Injective f)
    (hname : ∀ entry, (change entry).1 = f entry.1) (stated properties : List (String × TypeExpr)) :
    (stated.map change).foldl (fun properties entry => setProperty entry.1 entry.2 properties)
        (properties.map change) =
      (stated.foldl (fun properties entry => setProperty entry.1 entry.2 properties)
        properties).map change := by
  induction stated generalizing properties with
  | nil => rfl
  | cons first rest ih =>
    rw [List.map_cons, List.foldl_cons, List.foldl_cons, setProperty_map hf hname, ih]

/-- What is stated under one name stays so, and what is stated under two. -/
theorem collectProperties_map (hf : Function.Injective f)
    (hname : ∀ entry, (change entry).1 = f entry.1) (stated : List (String × TypeExpr)) :
    collectProperties (stated.map change) = (collectProperties stated).map change :=
  foldl_setProperty_map hf hname stated []

end Change

/-- Statements under different names are the properties they make. -/
theorem collectProperties_of_nodup {stated : List (String × TypeExpr)}
    (h : (stated.map (·.1)).Nodup) : collectProperties stated = stated :=
  foldl_setProperty_of_nodup h

/-! ## What values and bodies give -/

/-- A value gives a type of a name: a reference as it is, or the type that a body states. -/
inductive ReadsType (name : String) (value : Tree) : TypeExpr → Prop
  | named {target : String} (h : value.reference? = some target) :
    ReadsType name value (.named target)
  | inline {fields : Fields} {header : Header} {shape : Shape}
    (hfields : value.fields? = some fields)
    (h : (Definition.ofFields name fields).outcome = .ok ⟨header, shape⟩) :
    ReadsType name value (.inline header shape)

/-- An entry states a property: its key reads as the name, and its value gives the type. -/
def ReadsProperty (entry : Tree × Tree) (property : String × TypeExpr) : Prop :=
  entry.1.text? = some property.1 ∧ ReadsType property.1 entry.2 property.2

/-- The keys of entries read as the names of the properties that they state. -/
theorem readAs_of_readsProperties {entries : Fields} {stated : List (String × TypeExpr)}
    (h : List.Forall₂ ReadsProperty entries stated) :
    Tree.ReadAs (entries.map (·.1)) (stated.map (·.1)) :=
  Tree.readAs_of_forall₂ (fun _ _ hstates => hstates.1) h

/-- The fields of a body give a shape, whatever kind the body states. -/
inductive ReadsShape (name : String) (fields : Fields) : Shape → Prop
  | int {format : IntFormat} (h : wordField IntFormat name "format" fields = .ok format) :
    ReadsShape name fields (.int format)
  | number {format : NumberFormat} (h : wordField NumberFormat name "format" fields = .ok format) :
    ReadsShape name fields (.number format)
  | bool : ReadsShape name fields .bool
  | string {values : Option (List String)} (h : enumField name fields = .ok values) :
    ReadsShape name fields (.string values)
  | array {value : Tree} {container : Container} {element : TypeExpr}
    (hvalue : elementValue name fields = .ok value)
    (helement : ReadsType (itemsName name) value element)
    (hcontainer : wordField Container name "array_type" fields = .ok container) :
    ReadsShape name fields (.array container element)
  | object {entries : Fields} {stated : List (String × TypeExpr)} {required : List String}
    (hentries : propertyEntries name fields = .ok entries)
    (hstated : List.Forall₂ ReadsProperty entries stated)
    (hrequired :
      requiredField name ((collectProperties stated).map (·.1)) fields = .ok required) :
    ReadsShape name fields (.object (collectProperties stated) required)

/-! What a value gives, by what it reads as. -/

section Values

variable {name : String} {value : Tree} {type : TypeExpr}

theorem readsType_of_reference_iff {target : String} (hreference : value.reference? = some target) :
    ReadsType name value type ↔ .named target = type := by
  constructor
  · intro h
    cases h with
    | named h => rw [Option.some.inj (hreference.symm.trans h)]
    | inline hfields _ =>
      rw [Tree.reference?_eq_none_of_fields? hfields] at hreference
      cases hreference
  · intro h
    exact h ▸ .named hreference

theorem readsType_of_fields_iff {fields : Fields} (hreference : value.reference? = none)
    (hfields : value.fields? = some fields) :
    ReadsType name value type ↔ ∃ d, (Definition.ofFields name fields).outcome = .ok d ∧
      d.toInline = type := by
  constructor
  · intro h
    cases h with
    | named h =>
      rw [hreference] at h
      cases h
    | inline h hd =>
      cases hfields.symm.trans h
      exact ⟨_, hd, rfl⟩
  · intro ⟨_, hd, h⟩
    exact h ▸ .inline hfields hd

theorem not_readsType (hreference : value.reference? = none) (hfields : value.fields? = none) :
    ¬ ReadsType name value type := by
  intro h
  cases h with
  | named h =>
    rw [hreference] at h
    cases h
  | inline h _ =>
    rw [hfields] at h
    cases h

/-- Reading a value gives what the value states. Neither the owner nor the label of the field
matters to it. -/
theorem TypeExpr.ofTree_eq_ok_iff {owner label : String} :
    (TypeExpr.ofTree owner label name value).outcome = .ok type ↔ ReadsType name value type := by
  cases hreference : value.reference? with
  | some target =>
    rw [TypeExpr.ofTree_of_reference hreference, readsType_of_reference_iff hreference]
    exact iff_of_eq (Except.ok.injEq _ _)
  | none =>
    cases hfields : value.fields? with
    | none =>
      rw [TypeExpr.ofTree_of_neither hreference hfields]
      exact iff_of_false (nomatch ·) (not_readsType hreference hfields)
    | some fields =>
      simp only [TypeExpr.ofTree_of_fields hreference hfields, Traced.outcome_bind_eq_ok_iff,
        Traced.outcome_report, Traced.outcome_pure, readsType_of_fields_iff hreference hfields,
        Except.ok.injEq, true_and, exists_const]

end Values

theorem readProperties_eq_ok_iff {owner : String} {entries : Fields}
    {stated : List (String × TypeExpr)} :
    (readProperties owner entries).outcome = .ok stated ↔
      List.Forall₂ ReadsProperty entries stated := by
  induction entries generalizing stated with
  | nil =>
    rw [readProperties_nil, Traced.outcome_pure, Except.ok.injEq]
    constructor
    · intro h
      cases h
      exact .nil
    · intro h
      cases h
      rfl
  | cons entry rest ih =>
    rw [readProperties_cons]
    split
    · next hnone =>
      simp only [Traced.outcome_ofExcept, reduceCtorEq, false_iff]
      intro h
      cases h with
      | cons hfirst _ =>
        rw [hfirst.1] at hnone
        cases hnone
    · next property hproperty =>
      simp only [Traced.outcome_bind_eq_ok_iff, TypeExpr.ofTree_eq_ok_iff, ih, Traced.outcome_pure]
      constructor
      · intro h
        obtain ⟨type, htype, others, hothers, h⟩ := h
        cases h
        exact .cons ⟨hproperty, htype⟩ hothers
      · intro h
        cases h with
        | cons hfirst hothers =>
          obtain ⟨hname, htype⟩ := hfirst
          rw [hproperty] at hname
          cases hname
          exact ⟨_, htype, _, hothers, rfl⟩

/-! What the fields of a body give as a shape of each kind. -/

section Kinds

variable {name : String} {fields : Fields} {shape : Shape}

theorem readsShape_int_iff :
    shape.kind = .int ∧ ReadsShape name fields shape ↔
      ∃ format, wordField IntFormat name "format" fields = .ok format ∧ .int format = shape := by
  constructor
  · intro ⟨hkind, h⟩
    cases h with
    | int hformat => exact ⟨_, hformat, rfl⟩
    | _ => cases hkind
  · intro ⟨_, hformat, h⟩
    exact h ▸ ⟨rfl, .int hformat⟩

theorem readsShape_number_iff :
    shape.kind = .number ∧ ReadsShape name fields shape ↔
      ∃ format, wordField NumberFormat name "format" fields = .ok format ∧
        .number format = shape := by
  constructor
  · intro ⟨hkind, h⟩
    cases h with
    | number hformat => exact ⟨_, hformat, rfl⟩
    | _ => cases hkind
  · intro ⟨_, hformat, h⟩
    exact h ▸ ⟨rfl, .number hformat⟩

theorem readsShape_bool_iff :
    shape.kind = .bool ∧ ReadsShape name fields shape ↔ .bool = shape := by
  constructor
  · intro ⟨hkind, h⟩
    cases h with
    | bool => rfl
    | _ => cases hkind
  · intro h
    exact h ▸ ⟨rfl, .bool⟩

theorem readsShape_string_iff :
    shape.kind = .string ∧ ReadsShape name fields shape ↔
      ∃ values, enumField name fields = .ok values ∧ .string values = shape := by
  constructor
  · intro ⟨hkind, h⟩
    cases h with
    | string hvalues => exact ⟨_, hvalues, rfl⟩
    | _ => cases hkind
  · intro ⟨_, hvalues, h⟩
    exact h ▸ ⟨rfl, .string hvalues⟩

theorem readsShape_array_iff :
    shape.kind = .array ∧ ReadsShape name fields shape ↔
      ∃ value, elementValue name fields = .ok value ∧
        ∃ element, ReadsType (itemsName name) value element ∧
          ∃ container, wordField Container name "array_type" fields = .ok container ∧
            .array container element = shape := by
  constructor
  · intro ⟨hkind, h⟩
    cases h with
    | array hvalue helement hcontainer => exact ⟨_, hvalue, _, helement, _, hcontainer, rfl⟩
    | _ => cases hkind
  · intro ⟨_, hvalue, _, helement, _, hcontainer, h⟩
    exact h ▸ ⟨rfl, .array hvalue helement hcontainer⟩

theorem readsShape_object_iff :
    shape.kind = .object ∧ ReadsShape name fields shape ↔
      ∃ entries, propertyEntries name fields = .ok entries ∧
        ∃ stated, List.Forall₂ ReadsProperty entries stated ∧
          ∃ required,
            requiredField name ((collectProperties stated).map (·.1)) fields = .ok required ∧
            .object (collectProperties stated) required = shape := by
  constructor
  · intro ⟨hkind, h⟩
    cases h with
    | object hentries hstated hrequired => exact ⟨_, hentries, _, hstated, _, hrequired, rfl⟩
    | _ => cases hkind
  · intro ⟨_, hentries, _, hstated, _, hrequired, h⟩
    exact h ▸ ⟨rfl, .object hentries hstated hrequired⟩

end Kinds

/-- Reading a body as a type of a kind gives its header and a shape of the kind. -/
theorem Definition.ofFieldsAs_eq_ok_iff {kind : Kind} {name : String} {fields : Fields}
    {d : Definition} :
    (Definition.ofFieldsAs kind name fields).outcome = .ok d ↔
      d.kind = kind ∧ Header.ofFields name kind.ownFields fields = .ok d.toHeader ∧
        ReadsShape name fields d.shape := by
  obtain ⟨header, shape⟩ := d
  rw [and_left_comm, Definition.kind]
  cases kind with
  | int =>
    simp only [Definition.ofFieldsAs_int, Traced.outcome_bind_eq_ok_iff, Traced.outcome_lift,
      Traced.outcome_pure, readsShape_int_iff, Except.ok.injEq, Definition.mk.injEq, existsAndEq,
      true_and, exists_and_left]
  | number =>
    simp only [Definition.ofFieldsAs_number, Traced.outcome_bind_eq_ok_iff, Traced.outcome_lift,
      Traced.outcome_pure, readsShape_number_iff, Except.ok.injEq, Definition.mk.injEq, existsAndEq,
      true_and, exists_and_left]
  | bool =>
    simp only [Definition.ofFieldsAs_bool, Traced.outcome_bind_eq_ok_iff, Traced.outcome_lift,
      Traced.outcome_pure, readsShape_bool_iff, Except.ok.injEq, Definition.mk.injEq, existsAndEq,
      true_and]
  | string =>
    simp only [Definition.ofFieldsAs_string, Traced.outcome_bind_eq_ok_iff, Traced.outcome_lift,
      Traced.outcome_pure, readsShape_string_iff, Except.ok.injEq, Definition.mk.injEq, existsAndEq,
      true_and, exists_and_left]
  | array =>
    simp only [Definition.ofFieldsAs_array, Traced.outcome_bind_eq_ok_iff, Traced.outcome_lift,
      Traced.outcome_pure, TypeExpr.ofTree_eq_ok_iff, readsShape_array_iff, Except.ok.injEq,
      Definition.mk.injEq, existsAndEq, true_and, exists_and_left]
  | object =>
    simp only [Definition.ofFieldsAs_object, Traced.outcome_bind_eq_ok_iff, Traced.outcome_lift,
      Traced.outcome_pure, readProperties_eq_ok_iff, readsShape_object_iff, Except.ok.injEq,
      Definition.mk.injEq, existsAndEq, true_and, exists_and_left]

/-- Reading a body gives a type of the kind that the body states. -/
theorem Definition.ofFields_eq_ok_iff {name : String} {fields : Fields} {d : Definition} :
    (Definition.ofFields name fields).outcome = .ok d ↔
      Kind.ofFields name fields = .ok d.kind ∧
        Header.ofFields name d.kind.ownFields fields = .ok d.toHeader ∧
        ReadsShape name fields d.shape := by
  simp only [Definition.ofFields, Traced.outcome_bind_eq_ok_iff, Traced.outcome_lift,
    Definition.ofFieldsAs_eq_ok_iff]
  constructor
  · intro h
    obtain ⟨kind, hkind, rfl, hheader, hshape⟩ := h
    exact ⟨hkind, hheader, hshape⟩
  · intro h
    obtain ⟨hkind, hheader, hshape⟩ := h
    exact ⟨d.kind, hkind, rfl, hheader, hshape⟩

/-- A definition has the name that it was read under. -/
theorem Definition.name_of_ofFields {name : String} {fields : Fields} {d : Definition}
    (h : (Definition.ofFields name fields).outcome = .ok d) : d.name = name :=
  (Header.ofFields_eq_ok_iff.mp (Definition.ofFields_eq_ok_iff.mp h).2.1).2.1

/-- A value that gives a type counts as given. -/
theorem ReadsType.isVoid_eq_false {name : String} {value : Tree} {type : TypeExpr}
    (h : ReadsType name value type) : value.isVoid = false := by
  cases h with
  | @named target h =>
    rw [Tree.isVoid_of_text? (Tree.reference?_eq_some_iff.mp h), ← Bool.not_eq_true,
      String.isEmpty_iff, String.append_eq_empty_iff]
    exact fun hempty => absurd hempty.1 (by decide)
  | inline hfields h =>
    obtain ⟨type, htype, -⟩ := Kind.ofFields_eq_ok_iff.mp (Definition.ofFields_eq_ok_iff.mp h).1
    rw [Tree.isVoid_of_fields? hfields, List.isEmpty_eq_false_iff]
    exact List.ne_nil_of_mem (mem_of_fieldValue? htype)

end TypeTable
