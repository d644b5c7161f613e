import TypeTable.Proofs.Definition.Reading

/-!
# The grammar of definitions

Which bodies state a type, said without the readers: `Grammar.Body` for bodies and
`Grammar.TypeValue` for the values of fields that hold types, each in terms of the other. The fields
and the words of each kind are written out in the rules.

`Definition.exists_ofFields_iff` says that a body is read exactly when it conforms, under any name.
-/

namespace TypeTable

namespace Grammar

/-- If a body has the field, its value is of the sort. -/
def Optional (field : String) (sort : Tree → Prop) (fields : Fields) : Prop :=
  ∀ value, fieldValue? field fields = some value → sort value

/-- A value that reads as one of the words. -/
def OneOf (words : List String) (value : Tree) : Prop :=
  ∃ word ∈ words, value.text? = some word

/-- A sequence of texts, one or more, no two of them the same. -/
def DistinctTexts (value : Tree) : Prop :=
  ∃ items texts, value.items? = some items ∧ Tree.ReadAs items texts ∧ texts ≠ [] ∧ texts.Nodup

/-- A value that counts as not given, or a sequence of names that keys of the entries read as. -/
def NamesOf (entries : Fields) (value : Tree) : Prop :=
  value.isVoid = true ∨ ∃ items, value.items? = some items ∧
    ∀ item ∈ items, ∃ name, item.text? = some name ∧ ∃ entry ∈ entries, entry.1.text? = some name

/-- What all bodies of a kind have: the word for the kind, no fields but the shared ones and those
of the kind, and no description but an untagged text. -/
structure Shared (kind : String) (own : List String) (fields : Fields) : Prop where
  kind : ∃ value, fieldValue? "type" fields = some value ∧ value.text? = some kind
  keys : ∀ entry ∈ fields, OneOf ("type" :: "description" :: own) entry.1
  description : Optional "description" (fun value => ∃ text, value = .text text) fields

mutual

/-- The bodies that state a type. -/
inductive Body : Fields → Prop
  | int {fields : Fields} (shared : Shared "int" ["format"] fields)
    (format : Optional "format" (OneOf ["uint32", "uint64", "int32", "int64"]) fields) : Body fields
  | number {fields : Fields} (shared : Shared "number" ["format"] fields)
    (format : Optional "format" (OneOf ["float", "double"]) fields) : Body fields
  | bool {fields : Fields} (shared : Shared "bool" [] fields) : Body fields
  | string {fields : Fields} (shared : Shared "string" ["enum"] fields)
    (values : Optional "enum" DistinctTexts fields) : Body fields
  | array {fields : Fields} {items : Tree} (shared : Shared "array" ["array_type", "items"] fields)
    (hitems : fieldValue? "items" fields = some items) (element : TypeValue items)
    (container : Optional "array_type" (OneOf ["array", "set"]) fields) : Body fields
  | object {fields entries : Fields} {properties : Tree}
    (shared : Shared "object" ["properties", "required"] fields)
    (hproperties : fieldValue? "properties" fields = some properties)
    (hentries : properties.fields? = some entries) (nonempty : entries ≠ [])
    (names : ∀ entry ∈ entries, ∃ name, entry.1.text? = some name)
    (types : ∀ entry ∈ entries, TypeValue entry.2)
    (required : Optional "required" (NamesOf entries) fields) : Body fields

/-- The values that state the type of an element or a property. -/
inductive TypeValue : Tree → Prop
  | reference {value : Tree} {name : String} (h : value.text? = some ("#" ++ name)) :
    TypeValue value
  | inline {value : Tree} {fields : Fields} (hfields : value.fields? = some fields)
    (body : Body fields) : TypeValue value

end

/-- What a body of a kind has besides what all bodies have. -/
def Own (fields : Fields) : Kind → Prop
  | .int => Optional "format" (OneOf ["uint32", "uint64", "int32", "int64"]) fields
  | .number => Optional "format" (OneOf ["float", "double"]) fields
  | .bool => True
  | .string => Optional "enum" DistinctTexts fields
  | .array =>
    (∃ items, fieldValue? "items" fields = some items ∧ TypeValue items) ∧
      Optional "array_type" (OneOf ["array", "set"]) fields
  | .object =>
    ∃ properties entries, fieldValue? "properties" fields = some properties ∧
      properties.fields? = some entries ∧ entries ≠ [] ∧
      (∀ entry ∈ entries, (∃ name, entry.1.text? = some name) ∧ TypeValue entry.2) ∧
      Optional "required" (NamesOf entries) fields

/-- A body conforms when it does so for some kind. -/
theorem body_iff {fields : Fields} :
    Body fields ↔ ∃ kind : Kind, Shared (word kind) kind.ownFields fields ∧ Own fields kind := by
  constructor
  · intro h
    cases h with
    | int shared format => exact ⟨.int, shared, format⟩
    | number shared format => exact ⟨.number, shared, format⟩
    | bool shared => exact ⟨.bool, shared, trivial⟩
    | string shared values => exact ⟨.string, shared, values⟩
    | array shared hitems element container =>
      exact ⟨.array, shared, ⟨_, hitems, element⟩, container⟩
    | object shared hproperties hentries nonempty names types required =>
      exact ⟨.object, shared, _, _, hproperties, hentries, nonempty,
        fun entry hentry => ⟨names entry hentry, types entry hentry⟩, required⟩
  · intro ⟨kind, shared, own⟩
    cases kind with
    | int => exact .int shared own
    | number => exact .number shared own
    | bool => exact .bool shared
    | string => exact .string shared own
    | array =>
      obtain ⟨⟨items, hitems, element⟩, container⟩ := own
      exact .array shared hitems element container
    | object =>
      obtain ⟨properties, entries, hproperties, hentries, nonempty, each, required⟩ := own
      exact .object shared hproperties hentries nonempty (fun entry hentry => (each entry hentry).1)
        (fun entry hentry => (each entry hentry).2) required

theorem typeValue_iff {value : Tree} :
    TypeValue value ↔ (∃ name, value.text? = some ("#" ++ name)) ∨
      ∃ fields, value.fields? = some fields ∧ Body fields := by
  constructor
  · intro h
    cases h with
    | reference h => exact .inl ⟨_, h⟩
    | inline hfields body => exact .inr ⟨_, hfields, body⟩
  · intro h
    rcases h with ⟨name, h⟩ | ⟨fields, hfields, body⟩
    · exact .reference h
    · exact .inline hfields body

end Grammar

open Grammar

/-! ## Fields -/

theorem exists_wordField_iff (α : Type) [Spelled α] [Inhabited α] (name field : String)
    (fields : Fields) :
    (∃ member, wordField α name field fields = .ok member) ↔
      Optional field (OneOf ((Spelled.members : List α).map word)) fields := by
  simp only [wordField_eq_ok_iff, Optional]
  cases fieldValue? field fields with
  | none => simp
  | some value =>
    simp only [reduceCtorEq, false_and, false_or, Option.some.injEq, exists_eq_left', forall_eq']
    constructor
    · intro ⟨member, hmember⟩
      exact ⟨word member, List.mem_map_of_mem (Spelled.mem_members member), hmember⟩
    · intro ⟨w, hw, htext⟩
      obtain ⟨member, -, hmember⟩ := List.mem_map.mp hw
      exact ⟨member, hmember ▸ htext⟩

theorem exists_enumField_iff (name : String) (fields : Fields) :
    (∃ values, enumField name fields = .ok values) ↔ Optional "enum" DistinctTexts fields := by
  simp only [enumField_eq_ok_iff, enumeration_eq_ok_iff, Optional, DistinctTexts]
  cases fieldValue? "enum" fields with
  | none => simp
  | some value =>
    simp only [reduceCtorEq, false_and, false_or, Option.some.injEq, exists_and_left,
      exists_eq_left', forall_eq']
    constructor
    · intro ⟨values, texts, ⟨items, h⟩, _⟩
      exact ⟨items, h.1, texts, h.2⟩
    · intro ⟨items, hitems, texts, h⟩
      exact ⟨some texts, texts, ⟨items, hitems, h⟩, rfl⟩

theorem exists_requiredField_iff {name : String} {declared : List String} {fields : Fields} :
    (∃ required, requiredField name declared fields = .ok required) ↔
      Optional "required" (fun value => value.isVoid = true ∨ ∃ items, value.items? = some items ∧
        ∀ item ∈ items, ∃ text, item.text? = some text ∧ text ∈ declared) fields := by
  simp only [requiredField_eq_ok_iff, Optional]
  cases fieldValue? "required" fields with
  | none => simp
  | some value =>
    simp only [Option.some.injEq, forall_eq']
    constructor
    · intro ⟨required, h⟩
      rcases h with ⟨hvoid, -⟩ | ⟨_, items, texts, rfl, -, hitems, hread, hall, -⟩
      · exact .inl hvoid
      · refine .inr ⟨items, hitems, fun item hitem => ?_⟩
        obtain ⟨text, htext⟩ := Tree.exists_readAs_iff.mp ⟨texts, hread⟩ item hitem
        exact ⟨text, htext, hall text (hread.mem_iff.mpr ⟨item, hitem, htext⟩)⟩
    · intro h
      cases hvoid : value.isVoid with
      | true => exact ⟨[], .inl ⟨rfl, rfl⟩⟩
      | false =>
        rw [hvoid] at h
        obtain ⟨items, hitems, hall⟩ := h.resolve_left Bool.false_ne_true
        obtain ⟨texts, hread⟩ := Tree.exists_readAs_iff.mpr fun item hitem =>
          (hall item hitem).imp fun _ h => h.1
        refine ⟨_, .inr ⟨value, items, texts, rfl, hvoid, hitems, hread, fun text htext => ?_, rfl⟩⟩
        obtain ⟨item, hitem, hitext⟩ := hread.mem_iff.mp htext
        obtain ⟨other, hother, hdeclared⟩ := hall item hitem
        rw [hitext] at hother
        cases hother
        exact hdeclared

/-! ## Bodies -/

/-- What all bodies of a kind have is what their kind and their header are read from. -/
theorem shared_iff {kind : Kind} {name : String} {fields : Fields} :
    Shared (word kind) kind.ownFields fields ↔
      Kind.ofFields name fields = .ok kind ∧
        ∃ header, Header.ofFields name kind.ownFields fields = .ok header := by
  have hkey : ∀ key, OneOf ("type" :: "description" :: kind.ownFields) key ↔
      isFieldKey kind.ownFields key = true := by
    intro key
    rw [isFieldKey_iff]
    exact ⟨fun ⟨field, hmem, htext⟩ => ⟨field, htext, hmem⟩,
      fun ⟨field, htext, hmem⟩ => ⟨field, hmem, htext⟩⟩
  have hdescription : (∃ description : Option String,
      fieldValue? "description" fields = description.map .text) ↔
        Optional "description" (fun value => ∃ text, value = .text text) fields := by
    unfold Optional
    cases fieldValue? "description" fields with
    | none =>
      refine iff_of_true ⟨none, rfl⟩ fun value hvalue => ?_
      cases hvalue
    | some value =>
      constructor
      · intro ⟨description, h⟩ other hother
        cases hother
        obtain ⟨text, -, htext⟩ := Option.map_eq_some_iff.mp h.symm
        exact ⟨text, htext.symm⟩
      · intro h
        obtain ⟨text, rfl⟩ := h value rfl
        exact ⟨some text, rfl⟩
  rw [Kind.ofFields_eq_ok_iff]
  constructor
  · intro ⟨hkind, hkeys, h⟩
    obtain ⟨description, h⟩ := hdescription.mpr h
    refine ⟨hkind, ⟨name, description⟩, Header.ofFields_eq_ok_iff.mpr ⟨?_, rfl, h⟩⟩
    exact fun entry hentry => (hkey entry.1).mp (hkeys entry hentry)
  · intro ⟨hkind, header, hheader⟩
    obtain ⟨hkeys, -, h⟩ := Header.ofFields_eq_ok_iff.mp hheader
    exact ⟨hkind, fun entry hentry => (hkey entry.1).mpr (hkeys entry hentry),
      hdescription.mp ⟨_, h⟩⟩

/-- An entry states a property when its key reads as a name and its value gives a type of it. -/
theorem exists_readsProperty_iff {entry : Tree × Tree} :
    (∃ property, ReadsProperty entry property) ↔
      ∃ name, entry.1.text? = some name ∧ ∃ type, ReadsType name entry.2 type :=
  ⟨fun ⟨property, hname, htype⟩ => ⟨property.1, hname, property.2, htype⟩,
    fun ⟨name, hname, type, htype⟩ => ⟨(name, type), hname, htype⟩⟩

/-- A name is one of the properties that entries make when the key of an entry reads as it. -/
theorem mem_keys_collectProperties_iff {entries : Fields} {stated : List (String × TypeExpr)}
    (h : List.Forall₂ ReadsProperty entries stated) {name : String} :
    name ∈ (collectProperties stated).map (·.1) ↔
      ∃ entry ∈ entries, entry.1.text? = some name := by
  rw [keys_collectProperties, mem_addNew_nil, (readAs_of_readsProperties h).mem_iff]
  simp

/-- The names of required properties are those of the entries that make the properties. -/
theorem exists_requiredField_stated_iff {name : String} {fields entries : Fields}
    {stated : List (String × TypeExpr)} (hstated : List.Forall₂ ReadsProperty entries stated) :
    (∃ required, requiredField name ((collectProperties stated).map (·.1)) fields = .ok required) ↔
      Optional "required" (NamesOf entries) fields := by
  rw [exists_requiredField_iff]
  simp only [mem_keys_collectProperties_iff hstated]
  rfl

section Shapes

variable {name : String} {fields : Fields}

theorem exists_readsShape_array_iff
    (hitems : ∀ value, fieldValue? "items" fields = some value →
      ∀ name, (∃ type, ReadsType name value type) ↔ TypeValue value) :
    (∃ shape : Shape, shape.kind = .array ∧ ReadsShape name fields shape) ↔ Own fields .array := by
  have hword := exists_wordField_iff Container name "array_type" fields
  simp only [readsShape_array_iff]
  constructor
  · intro ⟨_, value, hvalue, _, helement, _, hcontainer, _⟩
    have hvalue := (elementValue_eq_ok_iff.mp hvalue).1
    exact ⟨⟨value, hvalue, (hitems value hvalue _).mp ⟨_, helement⟩⟩, hword.mp ⟨_, hcontainer⟩⟩
  · intro ⟨⟨value, hvalue, htype⟩, hcontainer⟩
    obtain ⟨element, helement⟩ := (hitems value hvalue (itemsName name)).mpr htype
    obtain ⟨container, hcontainer⟩ := hword.mpr hcontainer
    have hgiven : elementValue name fields = .ok value :=
      elementValue_eq_ok_iff.mpr ⟨hvalue, helement.isVoid_eq_false⟩
    exact ⟨_, value, hgiven, element, helement, container, hcontainer, rfl⟩

theorem exists_readsShape_object_iff
    (hproperties : ∀ value entries, fieldValue? "properties" fields = some value →
      value.fields? = some entries → ∀ entry ∈ entries,
        ∀ name, (∃ type, ReadsType name entry.2 type) ↔ TypeValue entry.2) :
    (∃ shape : Shape, shape.kind = .object ∧ ReadsShape name fields shape) ↔
      Own fields .object := by
  simp only [readsShape_object_iff]
  constructor
  · intro ⟨_, entries, hentries, stated, hstated, _, hrequired, _⟩
    obtain ⟨value, hvalue, hfields, hne⟩ := propertyEntries_eq_ok_iff.mp hentries
    refine ⟨value, entries, hvalue, hfields, hne, fun entry hentry => ?_,
      (exists_requiredField_stated_iff hstated).mp ⟨_, hrequired⟩⟩
    obtain ⟨property, -, hproperty⟩ := hstated.exists_of_mem_left hentry
    obtain ⟨name, hname, htype⟩ := exists_readsProperty_iff.mp ⟨property, hproperty⟩
    exact ⟨⟨name, hname⟩, (hproperties value entries hvalue hfields entry hentry name).mp htype⟩
  · intro ⟨value, entries, hvalue, hfields, hne, heach, hrequired⟩
    obtain ⟨stated, hstated⟩ : ∃ stated, List.Forall₂ ReadsProperty entries stated := by
      refine List.exists_forall₂_iff.mpr fun entry hentry => exists_readsProperty_iff.mpr ?_
      obtain ⟨⟨name, hname⟩, htype⟩ := heach entry hentry
      exact ⟨name, hname, (hproperties value entries hvalue hfields entry hentry name).mpr htype⟩
    obtain ⟨required, hrequired⟩ := (exists_requiredField_stated_iff hstated).mpr hrequired
    have hentries : propertyEntries name fields = .ok entries :=
      propertyEntries_eq_ok_iff.mpr ⟨value, hvalue, hfields, hne⟩
    exact ⟨_, entries, hentries, stated, hstated, required, hrequired, rfl⟩

/-- The fields of a body give a shape when they conform, given the same of the values that hold
types. -/
theorem exists_readsShape_iff {kind : Kind}
    (hitems : ∀ value, fieldValue? "items" fields = some value →
      ∀ name, (∃ type, ReadsType name value type) ↔ TypeValue value)
    (hproperties : ∀ value entries, fieldValue? "properties" fields = some value →
      value.fields? = some entries → ∀ entry ∈ entries,
        ∀ name, (∃ type, ReadsType name entry.2 type) ↔ TypeValue entry.2) :
    (∃ shape : Shape, shape.kind = kind ∧ ReadsShape name fields shape) ↔ Own fields kind := by
  cases kind with
  | int =>
    simp only [readsShape_int_iff, existsAndEq, and_true]
    exact exists_wordField_iff IntFormat name "format" fields
  | number =>
    simp only [readsShape_number_iff, existsAndEq, and_true]
    exact exists_wordField_iff NumberFormat name "format" fields
  | bool => exact iff_of_true ⟨.bool, rfl, .bool⟩ trivial
  | string =>
    simp only [readsShape_string_iff, existsAndEq, and_true]
    exact exists_enumField_iff name fields
  | array => exact exists_readsShape_array_iff hitems
  | object => exact exists_readsShape_object_iff hproperties

end Shapes

/-- Bodies and values that hold types are read, under any name, exactly when they conform. -/
theorem exists_reads_iff :
    (∀ fields name, (∃ d, (Definition.ofFields name fields).outcome = .ok d) ↔ Body fields) ∧
      ∀ value name, (∃ type, ReadsType name value type) ↔ TypeValue value := by
  apply body_induction
  case body =>
    intro fields hitems hproperties name
    rw [body_iff]
    constructor
    · intro ⟨d, h⟩
      obtain ⟨hkind, hheader, hshape⟩ := Definition.ofFields_eq_ok_iff.mp h
      exact ⟨d.kind, shared_iff.mpr ⟨hkind, _, hheader⟩,
        (exists_readsShape_iff hitems hproperties).mp ⟨_, rfl, hshape⟩⟩
    · intro ⟨kind, hshared, hown⟩
      obtain ⟨hkind, header, hheader⟩ := shared_iff.mp hshared
      obtain ⟨shape, rfl, hshape⟩ := (exists_readsShape_iff hitems hproperties).mpr hown
      exact ⟨⟨header, shape⟩, Definition.ofFields_eq_ok_iff.mpr ⟨hkind, hheader, hshape⟩⟩
  case held =>
    intro value hbody name
    rw [typeValue_iff]
    constructor
    · intro ⟨type, h⟩
      cases h with
      | named h => exact .inl ⟨_, Tree.reference?_eq_some_iff.mp h⟩
      | inline hfields h => exact .inr ⟨_, hfields, (hbody _ hfields name).mp ⟨_, h⟩⟩
    · intro h
      rcases h with ⟨target, htext⟩ | ⟨fields, hfields, h⟩
      · exact ⟨_, .named (Tree.reference?_eq_some_iff.mpr htext)⟩
      · obtain ⟨⟨header, shape⟩, h⟩ := (hbody fields hfields name).mpr h
        exact ⟨_, .inline hfields h⟩

/-- A body is read, under any name, exactly when it conforms. -/
theorem Definition.exists_ofFields_iff {name : String} {fields : Fields} :
    (∃ d, (Definition.ofFields name fields).outcome = .ok d) ↔ Body fields :=
  exists_reads_iff.1 fields name

end TypeTable
