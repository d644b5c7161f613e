import Mathlib.Data.List.Pairwise
import TypeTable.Proofs.Definition.Properties

/-!
# Keys of fields

Two rules say which key of a body is which field. A key is known by the text it reads as, whatever
tags are around it; a field is looked up under an untagged key. `Definition.ofFieldsAs_congr` says
that a body is read by its look-ups alone, and `Definition.Reflects` what becomes of a value that is
found. The two rules agree on a field exactly where no key that reads as it carries a tag
(`Definition.ofFieldsAs_untaggedFields`). A value under a tagged key is passed over, though its key
counts as known (`taggedFormat_ignored`).
-/

namespace TypeTable

/-! ## Look-ups -/

/-- A body is read by its header and by what it has under the fields of its kind. -/
theorem Definition.ofFieldsAs_congr {kind : Kind} {name : String} {fields others : Fields}
    (hheader : Header.ofFields name kind.ownFields fields =
      Header.ofFields name kind.ownFields others)
    (hfields : ∀ field ∈ kind.ownFields, fieldValue? field fields = fieldValue? field others) :
    Definition.ofFieldsAs kind name fields = Definition.ofFieldsAs kind name others := by
  cases kind with
  | int =>
    have hformat := hfields "format" (by decide)
    simp only [ofFieldsAs_int, hheader, wordField, hformat]
  | number =>
    have hformat := hfields "format" (by decide)
    simp only [ofFieldsAs_number, hheader, wordField, hformat]
  | bool => simp only [ofFieldsAs_bool, hheader]
  | string =>
    have henum := hfields "enum" (by decide)
    simp only [ofFieldsAs_string, hheader, enumField, henum]
  | array =>
    have hitems := hfields "items" (by decide)
    have hcontainer := hfields "array_type" (by decide)
    simp only [ofFieldsAs_array, hheader, elementValue, wordField, hitems, hcontainer]
  | object =>
    have hproperties := hfields "properties" (by decide)
    have hrequired := hfields "required" (by decide)
    simp only [ofFieldsAs_object, hheader, propertyEntries, requiredField, hproperties, hrequired]

/-- A value is what a definition has under a field: it was read as the part of the definition that
the field states. -/
inductive Definition.Reflects (d : Definition) : String → Tree → Prop
  | description {text : String} (h : d.description = some text) :
    d.Reflects "description" (.text text)
  | intFormat {format : IntFormat} {value : Tree} (h : d.shape = .int format)
    (hvalue : value.text? = some (word format)) : d.Reflects "format" value
  | numberFormat {format : NumberFormat} {value : Tree} (h : d.shape = .number format)
    (hvalue : value.text? = some (word format)) : d.Reflects "format" value
  | enumeration {values : List String} {value : Tree} (h : d.shape = .string (some values))
    (hvalue : enumeration d.name value = .ok values) : d.Reflects "enum" value
  | element {container : Container} {element : TypeExpr} {value : Tree}
    (h : d.shape = .array container element)
    (hvalue : ReadsType (itemsName d.name) value element) : d.Reflects "items" value
  | container {container : Container} {element : TypeExpr} {value : Tree}
    (h : d.shape = .array container element)
    (hvalue : value.text? = some (word container)) : d.Reflects "array_type" value
  | properties {properties : List (String × TypeExpr)} {required names : List String}
    {entries : Fields} {value : Tree} (h : d.shape = .object properties required)
    (hentries : value.fields? = some entries) (hvalue : Merges d.name entries names properties) :
    d.Reflects "properties" value
  | nothingRequired {properties : List (String × TypeExpr)} {value : Tree}
    (h : d.shape = .object properties []) (hvalue : value.isVoid = true) :
    d.Reflects "required" value
  | required {properties : List (String × TypeExpr)} {items : List Tree} {texts : List String}
    {value : Tree} (h : d.shape = .object properties (addNew [] texts))
    (hitems : value.items? = some items) (hvalue : Tree.ReadAs items texts) :
    d.Reflects "required" value

theorem text?_of_wordField {α : Type} [Spelled α] [Inhabited α] {name field : String}
    {fields : Fields} {member : α} {value : Tree} (h : wordField α name field fields = .ok member)
    (hvalue : fieldValue? field fields = some value) : value.text? = some (word member) := by
  rcases wordField_eq_ok_iff.mp h with ⟨hnone, -⟩ | ⟨other, hother, htext⟩
  · cases hvalue.symm.trans hnone
  · cases hvalue.symm.trans hother
    exact htext

/-- A value that is found under a field, other than the one for the kind, is what the definition has
under the field. -/
theorem Definition.reflects_of_ofFieldsAs {kind : Kind} {name field : String} {fields : Fields}
    {d : Definition} {value : Tree} (h : (Definition.ofFieldsAs kind name fields).outcome = .ok d)
    (hfield : field ≠ "type") (hvalue : fieldValue? field fields = some value) :
    d.Reflects field value := by
  obtain ⟨rfl, hheader, hshape⟩ := Definition.ofFieldsAs_eq_ok_iff.mp h
  obtain ⟨hkeys, rfl, hdescription⟩ := Header.ofFields_eq_ok_iff.mp hheader
  obtain ⟨_, hkey, hknown⟩ := isFieldKey_iff.mp (hkeys _ (mem_of_fieldValue? hvalue))
  cases hkey
  obtain ⟨header, shape⟩ := d
  rcases List.mem_append.mp hknown with hshared | hown
  · obtain rfl := (List.mem_pair.mp hshared).resolve_left hfield
    rw [hvalue] at hdescription
    obtain ⟨text, htext, rfl⟩ := Option.map_eq_some_iff.mp hdescription.symm
    exact .description htext
  · cases hshape with
    | int hformat =>
      obtain rfl := List.mem_singleton.mp hown
      exact .intFormat rfl (text?_of_wordField hformat hvalue)
    | number hformat =>
      obtain rfl := List.mem_singleton.mp hown
      exact .numberFormat rfl (text?_of_wordField hformat hvalue)
    | bool => cases hown
    | string hvalues =>
      obtain rfl := List.mem_singleton.mp hown
      rcases enumField_eq_ok_iff.mp hvalues with ⟨hnone, -⟩ | ⟨other, texts, hother, htexts, rfl⟩
      · cases hvalue.symm.trans hnone
      · cases hvalue.symm.trans hother
        exact .enumeration rfl htexts
    | array helement htype hcontainer =>
      rcases List.mem_pair.mp hown with rfl | rfl
      · exact .container rfl (text?_of_wordField hcontainer hvalue)
      · cases hvalue.symm.trans (elementValue_eq_ok_iff.mp helement).1
        exact .element rfl htype
    | object hentries hstated hrequired =>
      rcases List.mem_pair.mp hown with rfl | rfl
      · obtain ⟨other, hother, hfields, -⟩ := propertyEntries_eq_ok_iff.mp hentries
        cases hvalue.symm.trans hother
        exact .properties rfl hfields (merges_collectProperties _ hstated)
      · rcases requiredField_eq_ok_iff.mp hrequired with
          ⟨hvoid, rfl⟩ | ⟨other, items, texts, hother, -, hitems, htexts, -, rfl⟩
        · exact .nothingRequired rfl (hvoid value hvalue)
        · cases hvalue.symm.trans hother
          exact .required rfl hitems htexts

/-! ## Keys with tags -/

/-- The entries whose keys are texts without tags. -/
def untaggedFields (fields : Fields) : Fields :=
  fields.filter fun entry =>
    match entry.1 with
    | .text _ => true
    | _ => false

theorem fieldValue?_untaggedFields (name : String) (fields : Fields) :
    fieldValue? name (untaggedFields fields) = fieldValue? name fields := by
  rw [fieldValue?, fieldValue?, untaggedFields, List.find?_filter]
  congr 2
  funext entry
  cases entry.1 <;> simp [Tree.isText, beq_eq_decide]

/-- The look-up of a field finds what its keys say: of the keys that read as the field there is one
at most, and the value behind it is the one that is found. -/
def FindsStated (field : String) (fields : Fields) : Prop :=
  ∀ entry ∈ fields, entry.1.text? = some field →
    (∀ other ∈ fields, other.1.text? = some field → other = entry) ∧
      fieldValue? field fields = some entry.2

/-- Of two entries under one untagged key there is only one in a mapping. -/
theorem eq_of_untagged {field : String} {fields : Fields}
    (hdistinct : fields.Pairwise fun a b => a.1.same b.1 = false) {entry other : Tree × Tree}
    (hentry : entry ∈ fields) (hother : other ∈ fields) (hkey : entry.1 = .text field)
    (hotherKey : other.1 = .text field) : other = entry := by
  have hclash : fields.Pairwise fun a b => ¬ (a.1 = .text field ∧ b.1 = .text field) := by
    refine hdistinct.imp fun {a b} hdiffer => ?_
    intro h
    obtain ⟨ha, hb⟩ := h
    rw [ha, hb, Tree.same_text, beq_self_eq_true] at hdiffer
    cases hdiffer
  have : Std.Symm fun a b : Tree × Tree => ¬ (a.1 = .text field ∧ b.1 = .text field) :=
    ⟨fun _ _ h hswapped => h hswapped.symm⟩
  by_contra hne
  exact hclash.forall hother hentry hne ⟨hotherKey, hkey⟩

/-- The look-up agrees with the keys exactly where those that read as the field have no tags. -/
theorem findsStated_iff {field : String} {fields : Fields}
    (hdistinct : fields.Pairwise fun a b => a.1.same b.1 = false) :
    FindsStated field fields ↔
      ∀ entry ∈ fields, entry.1.text? = some field → entry.1 = .text field := by
  constructor
  · intro h entry hentry hkey
    obtain ⟨hunique, hvalue⟩ := h entry hentry hkey
    rw [← hunique _ (mem_of_fieldValue? hvalue) rfl]
  · intro h entry hentry hkey
    have hplain := h entry hentry hkey
    refine ⟨fun other hother hotherKey =>
      eq_of_untagged hdistinct hentry hother hplain (h other hother hotherKey), ?_⟩
    obtain ⟨found, hfound⟩ : ∃ found, fields.find? (·.1.isText field) = some found :=
      Option.isSome_iff_exists.mp
        (List.find?_isSome.mpr ⟨entry, hentry, Tree.isText_iff.mpr hplain⟩)
    have hfoundKey : found.1.isText field = true := by simpa using List.find?_some hfound
    have heq := eq_of_untagged hdistinct hentry (List.mem_of_find?_eq_some hfound) hplain
      (Tree.isText_iff.mp hfoundKey)
    rw [fieldValue?, hfound, Option.map_some, heq]

/-- Of a body that is read: the look-up of a field agrees with the keys where no key that reads as
the field carries a tag, and only there; what is found under a field is what the definition has
under it; and the definition is that of the entries without tags, whatever the others hold. -/
theorem Definition.ofFieldsAs_untaggedFields {kind : Kind} {name : String} {fields : Fields}
    {d : Definition} (hdistinct : fields.Pairwise fun a b => a.1.same b.1 = false)
    (h : (Definition.ofFieldsAs kind name fields).outcome = .ok d) :
    (∀ field, FindsStated field fields ↔
        ∀ entry ∈ fields, entry.1.text? = some field → entry.1 = .text field) ∧
      (∀ field value, field ≠ "type" → fieldValue? field fields = some value →
        d.Reflects field value) ∧
      (Definition.ofFieldsAs kind name (untaggedFields fields)).outcome = .ok d := by
  refine ⟨fun field => findsStated_iff hdistinct,
    fun field value => reflects_of_ofFieldsAs h, ?_⟩
  obtain ⟨hkind, hheader, -⟩ := ofFieldsAs_eq_ok_iff.mp h
  have huntagged : Header.ofFields name kind.ownFields (untaggedFields fields) =
      .ok d.toHeader := by
    obtain ⟨hkeys, hname, hdescription⟩ := Header.ofFields_eq_ok_iff.mp hheader
    refine Header.ofFields_eq_ok_iff.mpr ⟨fun entry hentry => ?_, hname, ?_⟩
    · exact hkeys entry (List.mem_of_mem_filter hentry)
    · rw [fieldValue?_untaggedFields, hdescription]
  rw [← h, ofFieldsAs_congr (huntagged.trans hheader.symm) fun field _ =>
    fieldValue?_untaggedFields field fields]

/-- A body with a format under a tagged key. -/
def taggedFormatBody : Fields :=
  [(.text "type", .text "int"), (.tagged ⟨"t"⟩ (.text "format"), .text "int64"),
    (.text "description", .text "in years")]

theorem ofFieldsAs_taggedFormatBody :
    (Definition.ofFieldsAs .int "Age" taggedFormatBody).outcome =
      .ok ⟨⟨"Age", some "in years"⟩, .int .int32⟩ :=
  Definition.ofFieldsAs_eq_ok_iff.mpr ⟨rfl, rfl, .int rfl⟩

theorem untaggedFields_of_taggedFormatBody :
    taggedFormatBody.Pairwise (fun a b => a.1.same b.1 = false) ∧
      (Definition.ofFieldsAs .int "Age" taggedFormatBody).outcome =
        .ok ⟨⟨"Age", some "in years"⟩, .int .int32⟩ ∧
      (∀ field, FindsStated field taggedFormatBody ↔
        ∀ entry ∈ taggedFormatBody, entry.1.text? = some field → entry.1 = .text field) ∧
      (∀ field value, field ≠ "type" → fieldValue? field taggedFormatBody = some value →
        Definition.Reflects ⟨⟨"Age", some "in years"⟩, .int .int32⟩ field value) ∧
      (Definition.ofFieldsAs .int "Age" (untaggedFields taggedFormatBody)).outcome =
        .ok ⟨⟨"Age", some "in years"⟩, .int .int32⟩ :=
  have hdistinct : taggedFormatBody.Pairwise fun a b => a.1.same b.1 = false := by decide
  ⟨hdistinct, ofFieldsAs_taggedFormatBody,
    Definition.ofFieldsAs_untaggedFields hdistinct ofFieldsAs_taggedFormatBody⟩

/-- A format under a tagged key is known and not found: the integer is read, and has the usual
format in place of the one that is stated. -/
theorem taggedFormat_ignored :
    taggedFormatBody.Pairwise (fun a b => a.1.same b.1 = false) ∧
      (Definition.ofFieldsAs .int "Age" taggedFormatBody).outcome =
        .ok ⟨⟨"Age", some "in years"⟩, .int .int32⟩ ∧
      (∃ entry ∈ taggedFormatBody, entry.1.text? = some "format" ∧ entry.2 = .text "int64") ∧
      ¬ FindsStated "format" taggedFormatBody := by
  have hentry : (Tree.tagged ⟨"t"⟩ (.text "format"), Tree.text "int64") ∈ taggedFormatBody :=
    List.mem_cons_of_mem _ (List.mem_cons_self ..)
  refine ⟨by decide, ofFieldsAs_taggedFormatBody, ⟨_, hentry, rfl, rfl⟩, fun h => ?_⟩
  have hfound : fieldValue? "format" taggedFormatBody = some (.text "int64") :=
    (h _ hentry rfl).2
  cases hfound

end TypeTable
