import TypeTable.Proofs.Definition.Paths

/-!
# Where a fault is

A body is not read because a check of its own fails (`OwnFault`), or because a body written in place
in it is not read (`FaultInside`): `Definition.ofFields_eq_error_iff`. In both cases all that is
checked before was in order, and no body has a fault of both kinds: `OwnFault.not_faultInside`.
Following the second case inwards leads to a body whose own check fails, and the fault bears the
name of that one (`FaultAt`): `Definition.exists_faultAt`.
-/

namespace TypeTable

open Fault (Cause)

/-! ## Checks of single fields -/

/-- A fault in a field of the body of a name: it bears the name, and is not that of a key which is
no field. -/
structure Fault.InField (name : String) (fault : Fault) : Prop where
  context : fault.context = some name
  notKey : ∀ found, fault.cause ≠ .fieldUnknown found

theorem inField_of_readWord {α : Type} [Spelled α] {name field : String} {value : Tree}
    {fault : Fault} (h : readWord α (some name) field value = .error fault) :
    fault.InField name := by
  unfold readWord at h
  split at h <;> cases h
  exact ⟨rfl, nofun⟩

theorem inField_of_wordField {α : Type} [Spelled α] [Inhabited α] {name field : String}
    {fields : Fields} {fault : Fault} (h : wordField α name field fields = .error fault) :
    fault.InField name := by
  unfold wordField at h
  split at h
  · exact inField_of_readWord h
  · cases h

theorem inField_of_kind {name : String} {fields : Fields} {fault : Fault}
    (h : Kind.ofFields name fields = .error fault) : fault.InField name := by
  unfold Kind.ofFields at h
  split at h
  · exact inField_of_readWord h
  · cases h
    exact ⟨rfl, nofun⟩

theorem context_of_header {name : String} {own : List String} {fields : Fields} {fault : Fault}
    (h : Header.ofFields name own fields = .error fault) : fault.context = some name := by
  unfold Header.ofFields at h
  split at h
  · cases h
    rfl
  · split at h <;> cases h
    rfl

theorem inField_of_enumValues {name : String} {seen : List String} {items : List Tree}
    {fault : Fault} (h : enumValues name seen items = .error fault) : fault.InField name := by
  induction items generalizing seen with
  | nil => cases h
  | cons item rest ih =>
    unfold enumValues at h
    split at h
    · cases h
      exact ⟨rfl, nofun⟩
    · split at h
      · cases h
        exact ⟨rfl, nofun⟩
      · exact ih h

theorem inField_of_enumeration {name : String} {value : Tree} {fault : Fault}
    (h : enumeration name value = .error fault) : fault.InField name := by
  unfold enumeration at h
  split at h
  · cases h
    exact ⟨rfl, nofun⟩
  · cases h
    exact ⟨rfl, nofun⟩
  · exact inField_of_enumValues h

theorem inField_of_enumField {name : String} {fields : Fields} {fault : Fault}
    (h : enumField name fields = .error fault) : fault.InField name := by
  unfold enumField at h
  split at h
  · cases h
  · next value _ =>
    cases hvalue : enumeration name value with
    | ok values =>
      rw [hvalue] at h
      cases h
    | error other =>
      rw [hvalue] at h
      cases h
      exact inField_of_enumeration hvalue

theorem inField_of_requiredNames {name : String} {declared seen : List String} {items : List Tree}
    {fault : Fault} (h : requiredNames name declared seen items = .error fault) :
    fault.InField name := by
  induction items generalizing seen with
  | nil => cases h
  | cons item rest ih =>
    unfold requiredNames at h
    split at h
    · cases h
      exact ⟨rfl, nofun⟩
    · split at h
      · exact ih h
      · cases h
        exact ⟨rfl, nofun⟩

theorem inField_of_requiredField {name : String} {declared : List String} {fields : Fields}
    {fault : Fault} (h : requiredField name declared fields = .error fault) :
    fault.InField name := by
  unfold requiredField at h
  split at h
  · cases h
  · split at h
    · cases h
    · split at h
      · cases h
        exact ⟨rfl, nofun⟩
      · exact inField_of_requiredNames h

theorem inField_of_elementValue {name : String} {fields : Fields} {fault : Fault}
    (h : elementValue name fields = .error fault) : fault.InField name := by
  unfold elementValue at h
  split at h
  · cases h
    exact ⟨rfl, nofun⟩
  · split at h <;> cases h
    exact ⟨rfl, nofun⟩

theorem inField_of_propertyEntries {name : String} {fields : Fields} {fault : Fault}
    (h : propertyEntries name fields = .error fault) : fault.InField name := by
  unfold propertyEntries at h
  split at h
  · cases h
    exact ⟨rfl, nofun⟩
  · split at h <;> cases h <;> exact ⟨rfl, nofun⟩

/-! ## Own faults and inner faults -/

/-- A value that states no type: it is neither a reference nor a mapping. -/
structure StatesNoType (value : Tree) : Prop where
  noReference : value.reference? = none
  noFields : value.fields? = none

/-- The faults of a body in the fields of a kind, apart from those inside the bodies written in
place. What is read before the check, those bodies among it, is read without fault. -/
inductive ShapeFault (name : String) (fields : Fields) : Kind → Fault → Prop
  | intFormat {fault : Fault} (h : wordField IntFormat name "format" fields = .error fault) :
    ShapeFault name fields .int fault
  | numberFormat {fault : Fault} (h : wordField NumberFormat name "format" fields = .error fault) :
    ShapeFault name fields .number fault
  | enumeration {fault : Fault} (h : enumField name fields = .error fault) :
    ShapeFault name fields .string fault
  | noElement {fault : Fault} (h : elementValue name fields = .error fault) :
    ShapeFault name fields .array fault
  | notElement {value : Tree} (hvalue : elementValue name fields = .ok value)
    (h : StatesNoType value) :
    ShapeFault name fields .array ((Cause.notAType "items" value.describe).within name)
  | container {value : Tree} {element : TypeExpr} {fault : Fault}
    (hvalue : elementValue name fields = .ok value)
    (helement : ReadsType (itemsName name) value element)
    (h : wordField Container name "array_type" fields = .error fault) :
    ShapeFault name fields .array fault
  | noProperties {fault : Fault} (h : propertyEntries name fields = .error fault) :
    ShapeFault name fields .object fault
  | propertyName {before after : Fields} {entry : Tree × Tree} {stated : List (String × TypeExpr)}
    (hentries : propertyEntries name fields = .ok (before ++ entry :: after))
    (hbefore : List.Forall₂ ReadsProperty before stated) (h : entry.1.text? = none) :
    ShapeFault name fields .object
      ((Cause.propertyNameNotText entry.1.describe).within name)
  | notProperty {before after : Fields} {entry : Tree × Tree} {stated : List (String × TypeExpr)}
    {property : String} (hentries : propertyEntries name fields = .ok (before ++ entry :: after))
    (hbefore : List.Forall₂ ReadsProperty before stated) (hname : entry.1.text? = some property)
    (h : StatesNoType entry.2) :
    ShapeFault name fields .object
      ((Cause.notAType (propertyLabel property) entry.2.describe).within name)
  | required {entries : Fields} {stated : List (String × TypeExpr)} {fault : Fault}
    (hentries : propertyEntries name fields = .ok entries)
    (hstated : List.Forall₂ ReadsProperty entries stated)
    (h : requiredField name ((collectProperties stated).map (·.1)) fields = .error fault) :
    ShapeFault name fields .object fault

/-- The faults of a body of a kind inside the type of its elements or of a property. The properties
before are read without fault. -/
inductive InnerFault (name : String) (fields : Fields) : Kind → Fault → Prop
  | element {value : Tree} {inner : Fields} {fault : Fault}
    (hvalue : elementValue name fields = .ok value) (hinner : value.fields? = some inner)
    (h : (Definition.ofFields (itemsName name) inner).outcome = .error fault) :
    InnerFault name fields .array fault
  | property {before after inner : Fields} {entry : Tree × Tree}
    {stated : List (String × TypeExpr)} {property : String} {fault : Fault}
    (hentries : propertyEntries name fields = .ok (before ++ entry :: after))
    (hbefore : List.Forall₂ ReadsProperty before stated) (hname : entry.1.text? = some property)
    (hinner : entry.2.fields? = some inner)
    (h : (Definition.ofFields property inner).outcome = .error fault) :
    InnerFault name fields .object fault

/-- The faults of a body that are its own: in the kind it states, in its header, or in the fields of
its kind, but not inside a body written in place. -/
inductive OwnFault (name : String) (fields : Fields) : Fault → Prop
  | kind {fault : Fault} (h : Kind.ofFields name fields = .error fault) : OwnFault name fields fault
  | header {kind : Kind} {fault : Fault} (hkind : Kind.ofFields name fields = .ok kind)
    (h : Header.ofFields name kind.ownFields fields = .error fault) : OwnFault name fields fault
  | shape {kind : Kind} {header : Header} {fault : Fault}
    (hkind : Kind.ofFields name fields = .ok kind)
    (hheader : Header.ofFields name kind.ownFields fields = .ok header)
    (h : ShapeFault name fields kind fault) : OwnFault name fields fault

/-- The faults of a body that lie inside a body written in place in it. What is read before is read
without fault. -/
def FaultInside (name : String) (fields : Fields) (fault : Fault) : Prop :=
  ∃ kind header, Kind.ofFields name fields = .ok kind ∧
    Header.ofFields name kind.ownFields fields = .ok header ∧ InnerFault name fields kind fault

/-- The faults in the fields of a kind are not those of keys. -/
theorem ShapeFault.inField {name : String} {fields : Fields} {kind : Kind} {fault : Fault}
    (h : ShapeFault name fields kind fault) : fault.InField name := by
  cases h with
  | intFormat h => exact inField_of_wordField h
  | numberFormat h => exact inField_of_wordField h
  | enumeration h => exact inField_of_enumField h
  | noElement h => exact inField_of_elementValue h
  | notElement => exact ⟨rfl, nofun⟩
  | container _ _ h => exact inField_of_wordField h
  | noProperties h => exact inField_of_propertyEntries h
  | propertyName => exact ⟨rfl, nofun⟩
  | notProperty => exact ⟨rfl, nofun⟩
  | required _ _ h => exact inField_of_requiredField h

/-- A fault that is a body's own bears the name of the body. -/
theorem OwnFault.context_eq {name : String} {fields : Fields} {fault : Fault}
    (h : OwnFault name fields fault) : fault.context = some name := by
  cases h with
  | kind h => exact (inField_of_kind h).context
  | header _ h => exact context_of_header h
  | shape _ _ h => exact h.inField.context

/-! ## No fault is of both kinds -/

/-- The body that a type is read from is read. -/
theorem ReadsType.outcome_ne_error {name : String} {value : Tree} {type : TypeExpr} {inner : Fields}
    {fault : Fault} (h : ReadsType name value type) (hinner : value.fields? = some inner) :
    (Definition.ofFields name inner).outcome ≠ .error fault := by
  intro hfails
  cases h with
  | named h => cases h.symm.trans (Tree.reference?_eq_none_of_fields? hinner)
  | inline hfields hread =>
    cases hfields.symm.trans hinner
    cases hread.symm.trans hfails

theorem StatesNoType.not_readsType {name : String} {value : Tree} {type : TypeExpr}
    (h : StatesNoType value) : ¬ ReadsType name value type := by
  intro hreads
  cases hreads with
  | named hreference => cases hreference.symm.trans h.noReference
  | inline hfields _ => cases hfields.symm.trans h.noFields

/-- An entry whose body is not read states no property. -/
theorem not_readsProperty {entry : Tree × Tree} {inner : Fields} {name : String} {fault : Fault}
    (hname : entry.1.text? = some name) (hinner : entry.2.fields? = some inner)
    (h : (Definition.ofFields name inner).outcome = .error fault) (property : String × TypeExpr) :
    ¬ ReadsProperty entry property := by
  intro hstates
  obtain ⟨hproperty, htype⟩ := hstates
  cases hproperty.symm.trans hname
  exact htype.outcome_ne_error hinner h

theorem ShapeFault.not_innerFault {name : String} {fields : Fields} {kind : Kind}
    {fault other : Fault} (h : ShapeFault name fields kind fault) :
    ¬ InnerFault name fields kind other := by
  intro hinside
  cases hinside with
  | element hvalue hinner hfails =>
    cases h with
    | noElement h => cases hvalue.symm.trans h
    | notElement hvalue' hnone =>
      cases hvalue.symm.trans hvalue'
      cases hnone.noFields.symm.trans hinner
    | container hvalue' helement _ =>
      cases hvalue.symm.trans hvalue'
      exact helement.outcome_ne_error hinner hfails
  | @property before after inner entry stated property _ hentries hbefore hname hinner hfails =>
    have hunread := not_readsProperty hname hinner hfails
    cases h with
    | noProperties h => cases hentries.symm.trans h
    | propertyName hentries' hbefore' hnone =>
      have heq := hbefore.eq_of_split hunread hbefore' (fun _ h => by cases hnone.symm.trans h.1)
        (Except.ok.inj (hentries.symm.trans hentries'))
      rw [← heq, hname] at hnone
      cases hnone
    | notProperty hentries' hbefore' hname' hnone =>
      have heq := hbefore.eq_of_split hunread hbefore' (fun _ h => hnone.not_readsType h.2)
        (Except.ok.inj (hentries.symm.trans hentries'))
      cases heq
      cases hnone.noFields.symm.trans hinner
    | required hentries' hstated _ =>
      cases hentries.symm.trans hentries'
      have hentry : entry ∈ before ++ entry :: after := by simp
      obtain ⟨_, -, hstates⟩ := hstated.exists_of_mem_left hentry
      exact hunread _ hstates

/-- A fault that is a body's own is not that of a body inside it. -/
theorem OwnFault.not_faultInside {name : String} {fields : Fields} {fault other : Fault}
    (h : OwnFault name fields fault) : ¬ FaultInside name fields other := by
  intro hinside
  obtain ⟨kind, header, hkind, hheader, hinner⟩ := hinside
  cases h with
  | kind h => cases hkind.symm.trans h
  | header hkind' h =>
    cases hkind.symm.trans hkind'
    cases hheader.symm.trans h
  | shape hkind' _ h =>
    cases hkind.symm.trans hkind'
    exact h.not_innerFault hinner

/-! ## When reading fails -/

/-- A value is not read where it states no type, or the body that it reads as is not read. -/
theorem TypeExpr.ofTree_eq_error_iff {owner label name : String} {value : Tree} {fault : Fault} :
    (TypeExpr.ofTree owner label name value).outcome = .error fault ↔
      (StatesNoType value ∧ fault = (Cause.notAType label value.describe).within owner) ∨
        ∃ inner, value.fields? = some inner ∧
          (Definition.ofFields name inner).outcome = .error fault := by
  cases hreference : value.reference? with
  | some target =>
    rw [TypeExpr.ofTree_of_reference hreference]
    simp only [reduceCtorEq, false_iff]
    intro h
    rcases h with ⟨h, -⟩ | ⟨inner, hinner, -⟩
    · cases hreference.symm.trans h.noReference
    · cases hreference.symm.trans (Tree.reference?_eq_none_of_fields? hinner)
  | none =>
    cases hfields : value.fields? with
    | none =>
      rw [TypeExpr.ofTree_of_neither hreference hfields]
      have hnone : StatesNoType value := ⟨hreference, hfields⟩
      simp [hnone, eq_comm]
    | some fields =>
      rw [TypeExpr.ofTree_of_fields hreference hfields]
      have hsome : ¬ StatesNoType value := fun h => by cases hfields.symm.trans h.noFields
      simp only [Traced.outcome_bind_eq_error_iff, Traced.outcome_report, Traced.outcome_pure]
      simp [hsome]

/-- Entries are not read where one of them, behind others that are, has a key that is no text or a
value that is not read. -/
theorem readProperties_eq_error_iff {owner : String} {entries : Fields} {fault : Fault} :
    (readProperties owner entries).outcome = .error fault ↔
      ∃ before entry after stated, entries = before ++ entry :: after ∧
        List.Forall₂ ReadsProperty before stated ∧
        ((entry.1.text? = none ∧
            fault = (Cause.propertyNameNotText entry.1.describe).within owner) ∨
          ∃ property, entry.1.text? = some property ∧
            (TypeExpr.ofTree owner (propertyLabel property) property entry.2).outcome =
              .error fault) := by
  induction entries with
  | nil =>
    rw [readProperties_nil]
    constructor
    · intro h
      cases h
    · intro h
      obtain ⟨before, entry, after, _, h, _⟩ := h
      exact absurd h.symm (List.append_ne_nil_of_right_ne_nil before (List.cons_ne_nil _ _))
  | cons first rest ih =>
    rw [readProperties_cons]
    constructor
    · intro h
      split at h
      · next hnone =>
        cases h
        exact ⟨[], first, rest, [], rfl, .nil, .inl ⟨hnone, rfl⟩⟩
      · next property hproperty =>
        rcases Traced.outcome_bind_eq_error_iff.mp h with h | ⟨type, htype, h⟩
        · exact ⟨[], first, rest, [], rfl, .nil, .inr ⟨property, hproperty, h⟩⟩
        · rcases Traced.outcome_bind_eq_error_iff.mp h with h | ⟨_, _, h⟩
          · obtain ⟨before, entry, after, stated, rfl, hbefore, hentry⟩ := ih.mp h
            have hfirst : ReadsProperty first (property, type) :=
              ⟨hproperty, TypeExpr.ofTree_eq_ok_iff.mp htype⟩
            exact ⟨first :: before, entry, after, _, rfl, .cons hfirst hbefore, hentry⟩
          · cases h
    · intro h
      obtain ⟨before, entry, after, stated, heq, hbefore, hentry⟩ := h
      cases hbefore with
      | nil =>
        obtain ⟨rfl, rfl⟩ := List.cons.inj heq
        rcases hentry with ⟨hnone, rfl⟩ | ⟨property, hproperty, h⟩
        · rw [hnone]
          rfl
        · rw [hproperty]
          exact Traced.outcome_bind_eq_error_iff.mpr (.inl h)
      | cons hfirst hbefore =>
        obtain ⟨rfl, rfl⟩ := List.cons.inj heq
        have hrest := ih.mpr ⟨_, entry, after, _, rfl, hbefore, hentry⟩
        rw [hfirst.1]
        refine Traced.outcome_bind_eq_error_iff.mpr
          (.inr ⟨_, TypeExpr.ofTree_eq_ok_iff.mpr hfirst.2, ?_⟩)
        exact Traced.outcome_bind_eq_error_iff.mpr (.inl hrest)

section Kinds

variable {name : String} {fields : Fields} {fault : Fault}

theorem faults_of_int :
    ShapeFault name fields .int fault ∨ InnerFault name fields .int fault ↔
      wordField IntFormat name "format" fields = .error fault := by
  constructor
  · intro h
    rcases h with h | h
    · cases h with
      | intFormat h => exact h
    · cases h
  · exact fun h => .inl (.intFormat h)

theorem faults_of_number :
    ShapeFault name fields .number fault ∨ InnerFault name fields .number fault ↔
      wordField NumberFormat name "format" fields = .error fault := by
  constructor
  · intro h
    rcases h with h | h
    · cases h with
      | numberFormat h => exact h
    · cases h
  · exact fun h => .inl (.numberFormat h)

theorem faults_of_bool :
    ¬ (ShapeFault name fields .bool fault ∨ InnerFault name fields .bool fault) := by
  intro h
  rcases h with h | h <;> cases h

theorem faults_of_string :
    ShapeFault name fields .string fault ∨ InnerFault name fields .string fault ↔
      enumField name fields = .error fault := by
  constructor
  · intro h
    rcases h with h | h
    · cases h with
      | enumeration h => exact h
    · cases h
  · exact fun h => .inl (.enumeration h)

theorem faults_of_array :
    ShapeFault name fields .array fault ∨ InnerFault name fields .array fault ↔
      elementValue name fields = .error fault ∨
        ∃ value, elementValue name fields = .ok value ∧
          ((TypeExpr.ofTree name "items" (itemsName name) value).outcome = .error fault ∨
            ∃ element, ReadsType (itemsName name) value element ∧
              wordField Container name "array_type" fields = .error fault) := by
  simp only [TypeExpr.ofTree_eq_error_iff]
  constructor
  · intro h
    rcases h with h | h
    · cases h with
      | noElement h => exact .inl h
      | notElement hvalue hnone => exact .inr ⟨_, hvalue, .inl (.inl ⟨hnone, rfl⟩)⟩
      | container hvalue helement h => exact .inr ⟨_, hvalue, .inr ⟨_, helement, h⟩⟩
    · cases h with
      | element hvalue hinner h => exact .inr ⟨_, hvalue, .inl (.inr ⟨_, hinner, h⟩)⟩
  · intro h
    rcases h with h | ⟨value, hvalue, h | ⟨element, helement, h⟩⟩
    · exact .inl (.noElement h)
    · rcases h with ⟨hnone, rfl⟩ | ⟨inner, hinner, h⟩
      · exact .inl (.notElement hvalue hnone)
      · exact .inr (.element hvalue hinner h)
    · exact .inl (.container hvalue helement h)

theorem faults_of_object :
    ShapeFault name fields .object fault ∨ InnerFault name fields .object fault ↔
      propertyEntries name fields = .error fault ∨
        ∃ entries, propertyEntries name fields = .ok entries ∧
          ((readProperties name entries).outcome = .error fault ∨
            ∃ stated, List.Forall₂ ReadsProperty entries stated ∧
              requiredField name ((collectProperties stated).map (·.1)) fields =
                .error fault) := by
  simp only [readProperties_eq_error_iff, TypeExpr.ofTree_eq_error_iff]
  constructor
  · intro h
    rcases h with h | h
    · cases h with
      | noProperties h => exact .inl h
      | propertyName hentries hbefore hnone =>
        exact .inr ⟨_, hentries, .inl ⟨_, _, _, _, rfl, hbefore, .inl ⟨hnone, rfl⟩⟩⟩
      | notProperty hentries hbefore hname hnone =>
        exact .inr ⟨_, hentries,
          .inl ⟨_, _, _, _, rfl, hbefore, .inr ⟨_, hname, .inl ⟨hnone, rfl⟩⟩⟩⟩
      | required hentries hstated h => exact .inr ⟨_, hentries, .inr ⟨_, hstated, h⟩⟩
    · cases h with
      | property hentries hbefore hname hinner h =>
        exact .inr ⟨_, hentries,
          .inl ⟨_, _, _, _, rfl, hbefore, .inr ⟨_, hname, .inr ⟨_, hinner, h⟩⟩⟩⟩
  · intro h
    rcases h with h | ⟨entries, hentries, h | ⟨stated, hstated, h⟩⟩
    · exact .inl (.noProperties h)
    · obtain ⟨before, entry, after, stated, rfl, hbefore, h⟩ := h
      rcases h with ⟨hnone, rfl⟩ | ⟨property, hname, ⟨hnone, rfl⟩ | ⟨inner, hinner, h⟩⟩
      · exact .inl (.propertyName hentries hbefore hnone)
      · exact .inl (.notProperty hentries hbefore hname hnone)
      · exact .inr (.property hentries hbefore hname hinner h)
    · exact .inl (.required hentries hstated h)

end Kinds

/-- A body is not read as a kind where its header is not, or where a field of the kind has a fault
of its own or one inside a body written in place. -/
theorem Definition.ofFieldsAs_eq_error_iff {kind : Kind} {name : String} {fields : Fields}
    {fault : Fault} :
    (Definition.ofFieldsAs kind name fields).outcome = .error fault ↔
      Header.ofFields name kind.ownFields fields = .error fault ∨
        ∃ header, Header.ofFields name kind.ownFields fields = .ok header ∧
          (ShapeFault name fields kind fault ∨ InnerFault name fields kind fault) := by
  cases kind with
  | int =>
    simp only [Definition.ofFieldsAs_int, Traced.outcome_bind_eq_error_iff, Traced.outcome_lift,
      Traced.outcome_pure, faults_of_int, reduceCtorEq, and_false, exists_false, or_false]
  | number =>
    simp only [Definition.ofFieldsAs_number, Traced.outcome_bind_eq_error_iff, Traced.outcome_lift,
      Traced.outcome_pure, faults_of_number, reduceCtorEq, and_false, exists_false, or_false]
  | bool =>
    simp only [Definition.ofFieldsAs_bool, Traced.outcome_bind_eq_error_iff, Traced.outcome_lift,
      Traced.outcome_pure, faults_of_bool, reduceCtorEq, and_false, exists_false, or_false]
  | string =>
    simp only [Definition.ofFieldsAs_string, Traced.outcome_bind_eq_error_iff, Traced.outcome_lift,
      Traced.outcome_pure, faults_of_string, reduceCtorEq, and_false, exists_false, or_false]
  | array =>
    simp only [Definition.ofFieldsAs_array, Traced.outcome_bind_eq_error_iff, Traced.outcome_lift,
      Traced.outcome_pure, TypeExpr.ofTree_eq_ok_iff, faults_of_array, reduceCtorEq, and_false,
      exists_false, or_false]
  | object =>
    simp only [Definition.ofFieldsAs_object, Traced.outcome_bind_eq_error_iff, Traced.outcome_lift,
      Traced.outcome_pure, readProperties_eq_ok_iff, faults_of_object, reduceCtorEq, and_false,
      exists_false, or_false]

/-- A body is not read where it has a fault of its own, or one inside a body written in place. -/
theorem Definition.ofFields_eq_error_iff {name : String} {fields : Fields} {fault : Fault} :
    (Definition.ofFields name fields).outcome = .error fault ↔
      OwnFault name fields fault ∨ FaultInside name fields fault := by
  rw [Definition.ofFields, Traced.outcome_bind_eq_error_iff, Traced.outcome_lift]
  simp only [Definition.ofFieldsAs_eq_error_iff]
  constructor
  · intro h
    rcases h with h | ⟨kind, hkind, h | ⟨header, hheader, h | h⟩⟩
    · exact .inl (.kind h)
    · exact .inl (.header hkind h)
    · exact .inl (.shape hkind hheader h)
    · exact .inr ⟨kind, header, hkind, hheader, h⟩
  · intro h
    rcases h with h | ⟨kind, header, hkind, hheader, h⟩
    · cases h with
      | kind h => exact .inl h
      | header hkind h => exact .inr ⟨_, hkind, .inl h⟩
      | shape hkind hheader h => exact .inr ⟨_, hkind, .inr ⟨_, hheader, .inl h⟩⟩
    · exact .inr ⟨kind, hkind, .inr ⟨header, hheader, .inr h⟩⟩

/-! ## Bodies inside bodies -/

/-- A body states the kind. -/
def StatesKind (kind : Kind) (fields : Fields) : Prop :=
  ∃ value, fieldValue? "type" fields = some value ∧ value.text? = some (word kind)

/-- A path leads from a body to one that is written in place in it. It goes through the value under
`items` of the body of an array, and through any entry under `properties` of the body of an object.
-/
inductive LeadsTo : Fields → List Step → Fields → Prop
  | here {fields : Fields} : LeadsTo fields [] fields
  | items {fields inner body : Fields} {value : Tree} {path : List Step}
    (hkind : StatesKind .array fields) (hvalue : fieldValue? "items" fields = some value)
    (hinner : value.fields? = some inner) (h : LeadsTo inner path body) :
    LeadsTo fields (.items :: path) body
  | property {fields entries inner body : Fields} {value : Tree} {entry : Tree × Tree}
    {name : String} {path : List Step} (hkind : StatesKind .object fields)
    (hvalue : fieldValue? "properties" fields = some value)
    (hentries : value.fields? = some entries) (hentry : entry ∈ entries)
    (hname : entry.1.text? = some name) (hinner : entry.2.fields? = some inner)
    (h : LeadsTo inner path body) : LeadsTo fields (.property name :: path) body

/-- A fault of a body that is read under a name lies at a path: it is the own fault of the body that
the path leads to, not that of a body inside this one, and bears the name that the path gives. -/
structure FaultAt (name : String) (fields : Fields) (fault : Fault) (path : List Step)
    (body : Fields) : Prop where
  leads : LeadsTo fields path body
  context : fault.context = some (pathName name path)
  fails : (Definition.ofFields (pathName name path) body).outcome = .error fault
  own : OwnFault (pathName name path) body fault
  outside : ¬ FaultInside (pathName name path) body fault

section Step

variable {name : String} {fields inner body : Fields} {value : Tree} {fault : Fault}
  {path : List Step}

theorem FaultAt.here (hfails : (Definition.ofFields name fields).outcome = .error fault)
    (hown : OwnFault name fields fault) : FaultAt name fields fault [] fields where
  leads := .here
  context := by rw [pathName_nil, hown.context_eq]
  fails := by rw [pathName_nil, hfails]
  own := by rwa [pathName_nil]
  outside := by
    rw [pathName_nil]
    exact hown.not_faultInside

theorem FaultAt.items (hkind : StatesKind .array fields)
    (hvalue : fieldValue? "items" fields = some value) (hinner : value.fields? = some inner)
    (h : FaultAt (itemsName name) inner fault path body) :
    FaultAt name fields fault (.items :: path) body where
  leads := .items hkind hvalue hinner h.leads
  context := by rw [pathName_cons, Step.nameFrom, h.context]
  fails := by rw [pathName_cons, Step.nameFrom, h.fails]
  own := by
    rw [pathName_cons]
    exact h.own
  outside := by
    rw [pathName_cons]
    exact h.outside

theorem FaultAt.property {entries : Fields} {entry : Tree × Tree} {property : String}
    (hkind : StatesKind .object fields) (hvalue : fieldValue? "properties" fields = some value)
    (hentries : value.fields? = some entries) (hentry : entry ∈ entries)
    (hname : entry.1.text? = some property) (hinner : entry.2.fields? = some inner)
    (h : FaultAt property inner fault path body) :
    FaultAt name fields fault (.property property :: path) body where
  leads := .property hkind hvalue hentries hentry hname hinner h.leads
  context := by rw [pathName_cons, Step.nameFrom, h.context]
  fails := by rw [pathName_cons, Step.nameFrom, h.fails]
  own := by
    rw [pathName_cons]
    exact h.own
  outside := by
    rw [pathName_cons]
    exact h.outside

end Step

theorem exists_faultAt :
    (∀ fields name fault, (Definition.ofFields name fields).outcome = .error fault →
      ∃ path body, FaultAt name fields fault path body) ∧
      ∀ value inner, Tree.fields? value = some inner → ∀ name fault,
        (Definition.ofFields name inner).outcome = .error fault →
          ∃ path body, FaultAt name inner fault path body := by
  apply body_induction
  case body =>
    intro fields hitems hproperties name fault h
    rcases Definition.ofFields_eq_error_iff.mp h with hown | ⟨kind, _, hkind, _, hinside⟩
    · exact ⟨[], fields, .here h hown⟩
    · have hkind := Kind.ofFields_eq_ok_iff.mp hkind
      cases hinside with
      | element hvalue hinner hfails =>
        have hvalue := (elementValue_eq_ok_iff.mp hvalue).1
        obtain ⟨path, body, hat⟩ := hitems _ hvalue _ hinner _ _ hfails
        exact ⟨_, body, .items hkind hvalue hinner hat⟩
      | @property before after _ entry _ _ _ hentries _ hname hinner hfails =>
        obtain ⟨value, hvalue, hfields, -⟩ := propertyEntries_eq_ok_iff.mp hentries
        have hentry : entry ∈ before ++ entry :: after := by simp
        obtain ⟨path, body, hat⟩ := hproperties value _ hvalue hfields _ hentry _ hinner _ _ hfails
        exact ⟨_, body, .property hkind hvalue hfields hentry hname hinner hat⟩
  case held =>
    intro value hbody inner hinner
    exact hbody inner hinner

/-- A body that is not read has a fault of its own, or a body inside it does. -/
theorem Definition.exists_faultAt {name : String} {fields : Fields} {fault : Fault}
    (h : (Definition.ofFields name fields).outcome = .error fault) :
    ∃ path body, FaultAt name fields fault path body :=
  TypeTable.exists_faultAt.1 fields name fault h

end TypeTable
