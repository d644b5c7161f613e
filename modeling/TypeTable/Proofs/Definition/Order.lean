import TypeTable.Definition.Equality
import TypeTable.Proofs.Definition.Distinct
import TypeTable.Proofs.Definition.Properties
import TypeTable.Proofs.Tree.Equality

/-!
# Bodies in another order

Two bodies that are alike differ in the order of their fields and of what these hold.
`Definition.exists_same_of_alike` says that if one of them is read, so is the other, and the two
definitions are equal: the order of the entries changes that of the properties, and nothing else.
-/

namespace TypeTable

/-! ## Equality of lists of properties and names -/

theorem sameNames_self (names : List String) : sameNames names names = true := by
  unfold sameNames
  simp

theorem sameProperties_iff {properties others : List (String × TypeExpr)} :
    sameProperties properties others = true ↔
      ∀ property ∈ properties, ∃ type, others.lookup property.1 = some type ∧
        property.2.same type = true := by
  induction properties with
  | nil => simp [sameProperties]
  | cons property rest ih =>
    rw [sameProperties, Bool.and_eq_true, ih, List.forall_mem_cons]
    cases others.lookup property.1 <;> simp

/-! ## Fields -/

section Fields

variable {fields others : Fields}

theorem Tree.Alike.readAs {items others : List Tree} {texts : List String}
    (h : List.Forall₂ Tree.Alike items others) (hread : Tree.ReadAs items texts) :
    Tree.ReadAs others texts := by
  induction h generalizing texts with
  | nil => exact hread
  | cons hfirst _ ih =>
    obtain ⟨text, rest, htext, hrest, rfl⟩ := Tree.readAs_cons_left.mp hread
    exact Tree.readAs_cons_left.mpr ⟨text, rest, hfirst.text? htext, ih hrest, rfl⟩

theorem StatesKind.of_alike {kind : Kind} (h : (Tree.map fields).Alike (.map others))
    (hkind : StatesKind kind fields) : StatesKind kind others := by
  obtain ⟨value, hvalue, htext⟩ := hkind
  obtain ⟨other, hother, halike⟩ := h.exists_fieldValue? hvalue
  exact ⟨other, hother, halike.text? htext⟩

theorem wordField_of_alike {α : Type} [Spelled α] [Inhabited α] {name field : String} {member : α}
    (h : (Tree.map fields).Alike (.map others))
    (hmember : wordField α name field fields = .ok member) :
    wordField α name field others = .ok member := by
  rw [wordField_eq_ok_iff] at hmember ⊢
  rcases hmember with ⟨hnone, hdefault⟩ | ⟨value, hvalue, htext⟩
  · exact .inl ⟨h.fieldValue?_eq_none hnone, hdefault⟩
  · obtain ⟨other, hother, halike⟩ := h.exists_fieldValue? hvalue
    exact .inr ⟨other, hother, halike.text? htext⟩

theorem Header.ofFields_of_alike {name : String} {own : List String} {header : Header}
    (h : (Tree.map fields).Alike (.map others))
    (hheader : Header.ofFields name own fields = .ok header) :
    Header.ofFields name own others = .ok header := by
  rw [Header.ofFields_eq_ok_iff] at hheader ⊢
  obtain ⟨hkeys, hname, hdescription⟩ := hheader
  refine ⟨fun other hother => ?_, hname, ?_⟩
  · obtain ⟨entry, hentry, hkey, -⟩ := h.symm.exists_entry hother
    obtain ⟨field, hfield, hmem⟩ := isFieldKey_iff.mp (hkeys entry hentry)
    exact isFieldKey_iff.mpr ⟨field, hkey.symm.text? hfield, hmem⟩
  · cases hvalue : header.description with
    | none =>
      rw [hvalue] at hdescription
      exact h.fieldValue?_eq_none hdescription
    | some text =>
      rw [hvalue] at hdescription
      obtain ⟨other, hother, halike⟩ := h.exists_fieldValue? hdescription
      rw [hother, Tree.text_same_iff.mp halike.same]
      rfl

theorem enumField_of_alike {name : String} {values : Option (List String)}
    (h : (Tree.map fields).Alike (.map others)) (hvalues : enumField name fields = .ok values) :
    enumField name others = .ok values := by
  rw [enumField_eq_ok_iff] at hvalues ⊢
  rcases hvalues with ⟨hnone, heq⟩ | ⟨value, texts, hvalue, htexts, heq⟩
  · exact .inl ⟨h.fieldValue?_eq_none hnone, heq⟩
  · obtain ⟨other, hother, halike⟩ := h.exists_fieldValue? hvalue
    obtain ⟨items, hitems, hread, hne, hnodup⟩ := enumeration_eq_ok_iff.mp htexts
    obtain ⟨items', hitems', hforall⟩ := halike.items? hitems
    refine .inr ⟨other, texts, hother, enumeration_eq_ok_iff.mpr ?_, heq⟩
    exact ⟨items', hitems', Tree.Alike.readAs hforall hread, hne, hnodup⟩

/-- The required names stay, whatever the order in which the same names are declared. -/
theorem requiredField_of_alike {name : String} {declared declared' required : List String}
    (h : (Tree.map fields).Alike (.map others)) (hdeclared : declared ⊆ declared')
    (hrequired : requiredField name declared fields = .ok required) :
    requiredField name declared' others = .ok required := by
  rw [requiredField_eq_ok_iff] at hrequired ⊢
  rcases hrequired with ⟨hvoid, heq⟩ |
    ⟨value, items, texts, hvalue, hvoid, hitems, hread, hall, heq⟩
  · refine .inl ⟨fun other hother => ?_, heq⟩
    obtain ⟨value, hvalue, halike⟩ := h.symm.exists_fieldValue? hother
    rw [halike.isVoid]
    exact hvoid value hvalue
  · obtain ⟨other, hother, halike⟩ := h.exists_fieldValue? hvalue
    obtain ⟨items', hitems', hforall⟩ := halike.items? hitems
    exact .inr ⟨other, items', texts, hother, halike.isVoid ▸ hvoid, hitems',
      Tree.Alike.readAs hforall hread, fun text htext => hdeclared (hall text htext), heq⟩

end Fields

/-! ## Types -/

theorem ReadsType.unique {name : String} {value : Tree} {type type' : TypeExpr}
    (h : ReadsType name value type) (h' : ReadsType name value type') : type = type' := by
  have houtcome : (TypeExpr.ofTree name name name value).outcome = .ok type :=
    TypeExpr.ofTree_eq_ok_iff.mpr h
  have houtcome' : (TypeExpr.ofTree name name name value).outcome = .ok type' :=
    TypeExpr.ofTree_eq_ok_iff.mpr h'
  exact Except.ok.inj (houtcome.symm.trans houtcome')

theorem ReadsProperty.unique {entry : Tree × Tree} {property property' : String × TypeExpr}
    (h : ReadsProperty entry property) (h' : ReadsProperty entry property') :
    property = property' := by
  obtain ⟨hname, htype⟩ := h
  obtain ⟨hname', htype'⟩ := h'
  have heq : property.1 = property'.1 := Option.some.inj (hname.symm.trans hname')
  rw [← heq] at htype'
  exact Prod.ext heq (htype.unique htype')

/-- Two properties of one name with equal types. -/
def SameProperty (property other : String × TypeExpr) : Prop :=
  other.1 = property.1 ∧ property.2.same other.2 = true

theorem sameProperties_of_exists {properties others : List (String × TypeExpr)}
    (hnodup : (others.map (·.1)).Nodup)
    (h : ∀ property ∈ properties, ∃ other ∈ others, SameProperty property other) :
    sameProperties properties others = true := by
  refine sameProperties_iff.mpr fun property hproperty => ?_
  obtain ⟨other, hother, hname, hsame⟩ := h property hproperty
  exact ⟨other.2, hname ▸ lookup_of_mem hnodup hother, hsame⟩

/-- Equal shapes are of one kind. -/
theorem Shape.kind_eq_of_same {shape other : Shape} (h : shape.same other = true) :
    shape.kind = other.kind := by
  cases shape <;> cases other
  all_goals first | rfl | cases h

theorem Definition.name_eq_of_same {d e : Definition} (h : d.same e = true) : d.name = e.name := by
  have hheader := (Bool.and_eq_true_iff.mp h).1
  rw [eq_of_beq hheader]

/-- Alike bodies that state no property twice. -/
structure AlikeBodies (fields others : Fields) : Prop where
  alike : (Tree.map fields).Alike (.map others)
  distinct : DistinctProperties fields
  other_distinct : DistinctProperties others

/-- Alike values that, if they are bodies, state no property twice. -/
structure AlikeTypes (value other : Tree) : Prop where
  alike : value.Alike other
  distinct : ∀ fields, value.fields? = some fields → DistinctProperties fields
  other_distinct : ∀ fields, other.fields? = some fields → DistinctProperties fields

theorem AlikeTypes.fields? {value other : Tree} {fields : Fields} (h : AlikeTypes value other)
    (hfields : value.fields? = some fields) :
    ∃ others, other.fields? = some others ∧ AlikeBodies fields others := by
  obtain ⟨others, hothers, halike⟩ := h.alike.fields? hfields
  exact ⟨others, hothers, halike, h.distinct _ hfields, h.other_distinct _ hothers⟩

/-- What a body gives under a name, an alike body gives too. -/
def BodyInAnyOrder (fields : Fields) : Prop :=
  ∀ others, AlikeBodies fields others →
    ∀ name d, (Definition.ofFields name fields).outcome = .ok d →
      ∃ e, (Definition.ofFields name others).outcome = .ok e ∧ d.same e = true

/-- What a value gives as a type of a name, an alike value gives too. -/
def TypeInAnyOrder (value : Tree) : Prop :=
  ∀ other, AlikeTypes value other → ∀ name type, ReadsType name value type →
    ∃ type', ReadsType name other type' ∧ type.same type' = true

namespace AlikeBodies

variable {name : String} {fields others entries : Fields}

theorem elementValue {value : Tree} (h : AlikeBodies fields others)
    (hkind : StatesKind .array fields) (hvalue : elementValue name fields = .ok value) :
    ∃ other, elementValue name others = .ok other ∧ AlikeTypes value other := by
  obtain ⟨hfield, hvoid⟩ := elementValue_eq_ok_iff.mp hvalue
  obtain ⟨other, hother, halike⟩ := h.alike.exists_fieldValue? hfield
  have hkind' := hkind.of_alike h.alike
  exact ⟨other, elementValue_eq_ok_iff.mpr ⟨hother, halike.isVoid ▸ hvoid⟩, halike,
    fun _ => h.distinct.items hkind hfield, fun _ => h.other_distinct.items hkind' hother⟩

theorem propertyEntries (h : AlikeBodies fields others)
    (hentries : propertyEntries name fields = .ok entries) :
    ∃ entries', propertyEntries name others = .ok entries' ∧
      (Tree.map entries).Alike (.map entries') := by
  obtain ⟨value, hvalue, hentries, hne⟩ := propertyEntries_eq_ok_iff.mp hentries
  obtain ⟨other, hother, halike⟩ := h.alike.exists_fieldValue? hvalue
  obtain ⟨entries', hentries', hmaps⟩ := halike.fields? hentries
  refine ⟨entries', propertyEntries_eq_ok_iff.mpr ⟨other, hother, hentries', ?_⟩, hmaps⟩
  rw [← List.length_pos_iff] at hne ⊢
  exact hmaps.length_eq ▸ hne

/-- What the entries of a body state, those of an alike body state too. -/
theorem exists_stated {entries' : Fields} {stated : List (String × TypeExpr)}
    (h : AlikeBodies fields others) (hkind : StatesKind .object fields)
    (hentries : TypeTable.propertyEntries name fields = .ok entries)
    (hentries' : TypeTable.propertyEntries name others = .ok entries')
    (halike : (Tree.map entries).Alike (.map entries'))
    (htypes : ∀ entry ∈ entries, TypeInAnyOrder entry.2)
    (hstated : List.Forall₂ ReadsProperty entries stated) :
    ∃ stated', List.Forall₂ ReadsProperty entries' stated' ∧
      ∀ property ∈ stated, ∃ other ∈ stated', SameProperty property other := by
  obtain ⟨value, hvalue, hfields⟩ := propertyEntries_eq_ok hentries
  obtain ⟨value', hvalue', hfields'⟩ := propertyEntries_eq_ok hentries'
  have hkind' := hkind.of_alike h.alike
  refine halike.exists_stated hstated (fun _ _ _ => ReadsProperty.unique) ?_
  intro entry hentry other hother hkey halike property hproperty
  obtain ⟨hname, htype⟩ := hproperty
  have hname' := hkey.text? hname
  have htypes_alike : AlikeTypes entry.2 other.2 :=
    ⟨halike, fun _ => h.distinct.property hkind hvalue hfields hentry hname,
      fun _ => h.other_distinct.property hkind' hvalue' hfields' hother hname'⟩
  obtain ⟨type', htype', hsame⟩ := htypes entry hentry other.2 htypes_alike _ _ htype
  exact ⟨(property.1, type'), ⟨hname', htype'⟩, rfl, hsame⟩

theorem exists_object {stated : List (String × TypeExpr)} {required : List String}
    (h : AlikeBodies fields others) (hkind : StatesKind .object fields)
    (hentries : TypeTable.propertyEntries name fields = .ok entries)
    (htypes : ∀ entry ∈ entries, TypeInAnyOrder entry.2)
    (hstated : List.Forall₂ ReadsProperty entries stated)
    (hrequired :
      requiredField name ((collectProperties stated).map (·.1)) fields = .ok required) :
    ∃ shape', ReadsShape name others shape' ∧
      (Shape.object (collectProperties stated) required).same shape' = true := by
  obtain ⟨entries', hentries', halike⟩ := h.propertyEntries hentries
  obtain ⟨stated', hstated', heach⟩ :=
    h.exists_stated hkind hentries hentries' halike htypes hstated
  obtain ⟨value, hvalue, hfields⟩ := propertyEntries_eq_ok hentries
  obtain ⟨value', hvalue', hfields'⟩ := propertyEntries_eq_ok hentries'
  -- No property is stated twice, so what is stated is what the two shapes have.
  have hcollect := h.distinct.collectProperties_eq hvalue hfields hstated
  have hcollect' := h.other_distinct.collectProperties_eq hvalue' hfields' hstated'
  have hnodup' := h.other_distinct.nodup_stated hvalue' hfields' hstated'
  have hlength : stated.length = stated'.length := by
    rw [← hstated.length_eq, ← hstated'.length_eq, halike.length_eq]
  have hdeclared : (collectProperties stated).map (·.1) ⊆
      (collectProperties stated').map (·.1) := by
    rw [hcollect, hcollect']
    intro name hname
    obtain ⟨property, hproperty, rfl⟩ := List.mem_map.mp hname
    obtain ⟨other, hother, heq, -⟩ := heach property hproperty
    exact heq ▸ List.mem_map_of_mem hother
  have hrequired' := requiredField_of_alike h.alike hdeclared hrequired
  refine ⟨_, .object hentries' hstated' hrequired', ?_⟩
  rw [hcollect, hcollect', Shape.same, sameProperties_of_exists hnodup' heach, sameNames_self,
    hlength, beq_self_eq_true]
  rfl

theorem exists_shape {shape : Shape} (h : AlikeBodies fields others)
    (hkind : StatesKind shape.kind fields)
    (hitems : ∀ value, fieldValue? "items" fields = some value → TypeInAnyOrder value)
    (hproperties : ∀ value entries, fieldValue? "properties" fields = some value →
      value.fields? = some entries → ∀ entry ∈ entries, TypeInAnyOrder entry.2)
    (hshape : ReadsShape name fields shape) :
    ∃ shape', ReadsShape name others shape' ∧ shape.same shape' = true := by
  cases hshape with
  | int hformat => exact ⟨_, .int (wordField_of_alike h.alike hformat), beq_self_eq_true _⟩
  | number hformat => exact ⟨_, .number (wordField_of_alike h.alike hformat), beq_self_eq_true _⟩
  | bool => exact ⟨_, .bool, rfl⟩
  | string hvalues => exact ⟨_, .string (enumField_of_alike h.alike hvalues), beq_self_eq_true _⟩
  | array hvalue helement hcontainer =>
    have hfield := (elementValue_eq_ok hvalue).1
    obtain ⟨value', hvalue', halike⟩ := h.elementValue hkind hvalue
    obtain ⟨element', helement', hsame⟩ := hitems _ hfield value' halike _ _ helement
    have hcontainer' := wordField_of_alike h.alike hcontainer
    refine ⟨_, .array hvalue' helement' hcontainer', ?_⟩
    rw [Shape.same, beq_self_eq_true, hsame, Bool.and_self]
  | object hentries hstated hrequired =>
    obtain ⟨value, hvalue, hfields⟩ := propertyEntries_eq_ok hentries
    have htypes := hproperties value _ hvalue hfields
    exact h.exists_object hkind hentries htypes hstated hrequired

end AlikeBodies

/-- By induction over bodies: a body is in any order if the values in it that hold types are, and
such a value is if the body it reads as is. -/
theorem reads_in_any_order : (∀ fields, BodyInAnyOrder fields) ∧ ∀ value, TypeInAnyOrder value := by
  apply body_induction
  case body =>
    intro fields hitems hproperties others h name d hd
    obtain ⟨hkind, hheader, hshape⟩ := Definition.ofFields_eq_ok_iff.mp hd
    have hstates : StatesKind d.kind fields := Kind.ofFields_eq_ok_iff.mp hkind
    have hkind' : Kind.ofFields name others = .ok d.kind :=
      Kind.ofFields_eq_ok_iff.mpr (hstates.of_alike h.alike)
    have hheader' := Header.ofFields_of_alike h.alike hheader
    obtain ⟨shape', hshape', hsame⟩ := h.exists_shape hstates hitems hproperties hshape
    have hof : d.kind = shape'.kind := Shape.kind_eq_of_same hsame
    rw [hof] at hkind' hheader'
    refine ⟨⟨d.toHeader, shape'⟩, Definition.ofFields_eq_ok_iff.mpr ?_, ?_⟩
    · exact ⟨hkind', hheader', hshape'⟩
    · rw [Definition.same, hsame, beq_self_eq_true, Bool.and_self]
  case held =>
    intro value hbody other h name type htype
    cases htype with
    | named hreference =>
      rw [Tree.reference?_eq_some_iff] at hreference
      have hreference' := Tree.reference?_eq_some_iff.mpr (h.alike.text? hreference)
      exact ⟨_, .named hreference', beq_self_eq_true _⟩
    | inline hfields hd =>
      obtain ⟨others, hothers, hbodies⟩ := h.fields? hfields
      obtain ⟨e, he, hsame⟩ := hbody _ hfields others hbodies name _ hd
      exact ⟨_, .inline hothers he, hsame⟩

/-- If a body is read, an alike body is read too, and the two definitions are equal. -/
theorem Definition.exists_same_of_alike {name : String} {fields others : Fields} {d : Definition}
    (h : AlikeBodies fields others) (hd : (Definition.ofFields name fields).outcome = .ok d) :
    ∃ e, (Definition.ofFields name others).outcome = .ok e ∧ d.same e = true :=
  reads_in_any_order.1 fields others h name d hd

end TypeTable
