import TypeTable.Proofs.Definition.Faults

/-!
# Which fault is reported

A body is checked in a fixed order (`Kind.checks`), and of all its faults the one that is reported
is that of the first check that has any: `Definition.ofFieldsAs_failsBy`. The kind comes first, then
the keys, which are to be fields that the kind allows (`Kind.Admits`), then the description, and the
fields of the kind last. `Definition.ofFields_precedence` adds that a fault of unknown fields comes
from the keys, or from a body written in place.
-/

namespace TypeTable

open Fault (Cause)

/-! ## Checks in order -/

/-- A fault is that of the first of some checks that has any. -/
def FirstOf : List (Fault → Prop) → Fault → Prop
  | [], _ => False
  | check :: rest, fault => check fault ∨ (∀ other, ¬ check other) ∧ FirstOf rest fault

theorem firstOf_singleton {check : Fault → Prop} {fault : Fault} :
    FirstOf [check] fault ↔ check fault := by
  simp [FirstOf]

theorem firstOf_append {checks rest : List (Fault → Prop)} {fault : Fault} :
    FirstOf (checks ++ rest) fault ↔
      FirstOf checks fault ∨ (∀ other, ¬ FirstOf checks other) ∧ FirstOf rest fault := by
  induction checks with
  | nil => simp [FirstOf]
  | cons check checks ih =>
    rw [List.cons_append, FirstOf, FirstOf, ih]
    by_cases hnone : ∀ other, ¬ check other
    · simp [FirstOf, hnone]
    · obtain ⟨other, hother⟩ := not_forall_not.mp hnone
      have hsome : ¬ ∀ other, ¬ FirstOf (check :: checks) other := fun h => h other (.inl hother)
      simp only [hnone, hsome, false_and, or_false]

namespace Traced

variable {α β : Type}

/-- A computation fails with the fault of the first of some checks that has any, and does not fail
if none has. -/
def FailsBy (x : Traced Fault α) (checks : List (Fault → Prop)) : Prop :=
  ∀ fault, x.outcome = .error fault ↔ FirstOf checks fault

namespace FailsBy

variable {x : Traced Fault α} {f : α → Traced Fault β} {checks rest : List (Fault → Prop)}

theorem of_iff {check : Fault → Prop} (h : ∀ fault, x.outcome = .error fault ↔ check fault) :
    x.FailsBy [check] :=
  fun fault => (h fault).trans firstOf_singleton.symm

theorem pure (a : α) : (Pure.pure a : Traced Fault α).FailsBy [] :=
  fun _ => ⟨nofun, False.elim⟩

/-- The checks of a sequence are those of its first part and then those of its second part. -/
theorem bind (hx : x.FailsBy checks) (hf : ∀ a, x.outcome = .ok a → (f a).FailsBy rest) :
    (x >>= f).FailsBy (checks ++ rest) := by
  intro fault
  rw [outcome_bind_eq_error_iff, firstOf_append, hx fault]
  refine or_congr_right ⟨fun h => ?_, fun h => ?_⟩
  · obtain ⟨a, ha, hfails⟩ := h
    refine ⟨fun other hother => ?_, (hf a ha fault).mp hfails⟩
    cases ha.symm.trans ((hx other).mpr hother)
  · obtain ⟨hnone, hfirst⟩ := h
    cases ha : x.outcome with
    | ok a => exact ⟨a, rfl, (hf a ha fault).mpr hfirst⟩
    | error other => exact absurd ((hx other).mp ha) (hnone other)

theorem bind_pure {g : α → β} (hx : x.FailsBy checks) :
    (x >>= fun a => Pure.pure (g a)).FailsBy checks := by
  have h := hx.bind fun a _ => pure (g a)
  rwa [List.append_nil] at h

end FailsBy

end Traced

/-! ## Kinds and words -/

/-- A body states no kind that there is: it has no `type`, or one that spells no kind. -/
inductive KindFault (name : String) (fields : Fields) : Fault → Prop
  | missing (h : fieldValue? "type" fields = none) :
    KindFault name fields ((Cause.fieldMissing "type").within name)
  | unknown {value : Tree} (hvalue : fieldValue? "type" fields = some value)
    (h : ∀ kind : Kind, value.text? ≠ some (word kind)) :
    KindFault name fields ((Cause.wordUnknown "type" value.describe).within name)

/-- A field of a body spells none of the words of a closed set. -/
inductive WordFault (α : Type) [Spelled α] (name field : String) (fields : Fields) : Fault → Prop
  | unknown {value : Tree} (hvalue : fieldValue? field fields = some value)
    (h : ∀ member : α, value.text? ≠ some (word member)) :
    WordFault α name field fields ((Cause.wordUnknown field value.describe).within name)

section Words

variable {name field : String} {fields : Fields} {fault : Fault}

theorem readWord_eq_error_iff {α : Type} [Spelled α] {owner : Option String} {value : Tree} :
    readWord α owner field value = .error fault ↔
      (∀ member : α, value.text? ≠ some (word member)) ∧
        fault = ⟨.wordUnknown field value.describe, owner⟩ := by
  cases hread : readWord α owner field value with
  | ok member =>
    have htext := readWord_eq_ok_iff.mp hread
    simp only [reduceCtorEq, false_iff]
    exact fun h => h.1 member htext
  | error other =>
    have hnone : ∀ member : α, value.text? ≠ some (word member) := by
      intro member htext
      cases hread.symm.trans (readWord_eq_ok_iff.mpr htext)
    have hother : other = ⟨.wordUnknown field value.describe, owner⟩ := by
      unfold readWord at hread
      split at hread <;> cases hread
      rfl
    rw [Except.error.injEq, hother, eq_comm, and_iff_right hnone]

theorem wordField_eq_error_iff {α : Type} [Spelled α] [Inhabited α] :
    wordField α name field fields = .error fault ↔ WordFault α name field fields fault := by
  unfold wordField
  cases hvalue : fieldValue? field fields with
  | none =>
    simp only [reduceCtorEq, false_iff]
    intro h
    cases h with
    | unknown hvalue' => cases hvalue.symm.trans hvalue'
  | some value =>
    refine readWord_eq_error_iff.trans ⟨fun ⟨h, heq⟩ => heq ▸ .unknown hvalue h, fun h => ?_⟩
    cases h with
    | unknown hvalue' h =>
      cases hvalue.symm.trans hvalue'
      exact ⟨h, rfl⟩

theorem Kind.ofFields_eq_error_iff :
    Kind.ofFields name fields = .error fault ↔ KindFault name fields fault := by
  unfold Kind.ofFields
  cases hvalue : fieldValue? "type" fields with
  | none =>
    refine ⟨fun h => ?_, fun h => ?_⟩
    · cases h
      exact .missing hvalue
    · cases h with
      | missing => rfl
      | unknown hvalue' => cases hvalue.symm.trans hvalue'
  | some value =>
    refine readWord_eq_error_iff.trans ⟨fun ⟨h, heq⟩ => heq ▸ .unknown hvalue h, fun h => ?_⟩
    cases h with
    | missing hnone => cases hvalue.symm.trans hnone
    | unknown hvalue' h =>
      cases hvalue.symm.trans hvalue'
      exact ⟨h, rfl⟩

end Words

/-! ## Keys and descriptions -/

/-- A key reads as a field that bodies of the kind may hold. -/
def Kind.Admits (kind : Kind) (key : Tree) : Prop :=
  ∃ field, key.text? = some field ∧ kind.allows field = true

theorem Kind.admits_iff {kind : Kind} {key : Tree} :
    kind.Admits key ↔ isFieldKey kind.ownFields key = true := by
  rw [isFieldKey_iff]
  simp only [Kind.Admits, Kind.allows, Bool.or_eq_true, List.contains_iff_mem, List.mem_append]

/-- A body has a key that its kind does not admit. The first one is reported. -/
inductive KeyFault (kind : Kind) (name : String) (fields : Fields) : Fault → Prop
  | unknown {before after : Fields} {entry : Tree × Tree}
    (hfields : fields = before ++ entry :: after)
    (hbefore : ∀ earlier ∈ before, kind.Admits earlier.1) (h : ¬ kind.Admits entry.1) :
    KeyFault kind name fields ((Cause.fieldUnknown entry.1.describe).within name)

/-- A body has a description that is not an untagged text. -/
inductive DescriptionFault (name : String) (fields : Fields) : Fault → Prop
  | notText {value : Tree} (hvalue : fieldValue? "description" fields = some value)
    (h : ∀ text, value ≠ .text text) :
    DescriptionFault name fields (Cause.descriptionNotText.within name)

section Header

variable {kind : Kind} {name : String} {fields : Fields} {fault : Fault}

theorem keyFault_iff :
    KeyFault kind name fields fault ↔
      ∃ entry, (fields.find? fun entry => !isFieldKey kind.ownFields entry.1) = some entry ∧
        fault = (Cause.fieldUnknown entry.1.describe).within name := by
  simp only [List.find?_eq_some_iff_append, Bool.not_eq_true', ← Bool.not_eq_true,
    ← Kind.admits_iff, not_not]
  constructor
  · intro h
    cases h with
    | unknown hfields hbefore h => exact ⟨_, ⟨h, _, _, hfields, hbefore⟩, rfl⟩
  · intro h
    obtain ⟨entry, ⟨h, before, after, hfields, hbefore⟩, rfl⟩ := h
    exact .unknown hfields hbefore h

theorem exists_keyFault_iff :
    (∃ fault, KeyFault kind name fields fault) ↔ ∃ entry ∈ fields, ¬ kind.Admits entry.1 := by
  simp only [keyFault_iff, Kind.admits_iff]
  constructor
  · intro h
    obtain ⟨_, entry, hentry, -⟩ := h
    exact ⟨entry, List.mem_of_find?_eq_some hentry, by simpa using List.find?_some hentry⟩
  · intro h
    obtain ⟨entry, hentry, hkey⟩ := h
    have hsome : (fields.find? fun entry => !isFieldKey kind.ownFields entry.1).isSome := by
      rw [List.find?_isSome]
      exact ⟨entry, hentry, by simpa using hkey⟩
    obtain ⟨first, hfirst⟩ := Option.isSome_iff_exists.mp hsome
    exact ⟨_, first, hfirst, rfl⟩

theorem descriptionFault_iff :
    DescriptionFault name fields fault ↔
      ∃ value, fieldValue? "description" fields = some value ∧ (∀ text, value ≠ .text text) ∧
        fault = Cause.descriptionNotText.within name := by
  constructor
  · intro h
    cases h with
    | notText hvalue h => exact ⟨_, hvalue, h, rfl⟩
  · intro h
    obtain ⟨_, hvalue, h, rfl⟩ := h
    exact .notText hvalue h

/-- The keys are checked before the description. -/
theorem Header.ofFields_failsBy (kind : Kind) (name : String) (fields : Fields) :
    (liftM (Header.ofFields name kind.ownFields fields) : Traced Fault Header).FailsBy
      [KeyFault kind name fields, DescriptionFault name fields] := by
  intro fault
  simp only [Traced.outcome_lift, FirstOf, and_false, or_false, keyFault_iff, descriptionFault_iff]
  unfold Header.ofFields
  cases fields.find? fun entry => !isFieldKey kind.ownFields entry.1 with
  | some entry => simp [eq_comm]
  | none =>
    cases fieldValue? "description" fields with
    | none => simp
    | some value => cases value <;> simp [eq_comm]

end Header

/-! ## Types that a body holds -/

/-- An array has no value under `items`, or one that is not read as a type. -/
inductive ElementFault (name : String) (fields : Fields) : Fault → Prop
  | missing (h : ∀ value, fieldValue? "items" fields = some value → value.isVoid = true) :
    ElementFault name fields (Cause.itemsMissing.within name)
  | type {value : Tree} {fault : Fault} (hvalue : fieldValue? "items" fields = some value)
    (hvoid : value.isVoid = false)
    (h : (TypeExpr.ofTree name "items" (itemsName name) value).outcome = .error fault) :
    ElementFault name fields fault

/-- An entry under `properties` has a key that is no text, or a value that is not read as the type
of the property. -/
inductive PropertyFault (owner : String) (entry : Tree × Tree) : Fault → Prop
  | key (h : entry.1.text? = none) :
    PropertyFault owner entry ((Cause.propertyNameNotText entry.1.describe).within owner)
  | type {property : String} {fault : Fault} (hname : entry.1.text? = some property)
    (h : (TypeExpr.ofTree owner (propertyLabel property) property entry.2).outcome =
      .error fault) : PropertyFault owner entry fault

/-- An object has no entries under `properties`, or one with a fault. The first one is reported. -/
inductive PropertiesFault (name : String) (fields : Fields) : Fault → Prop
  | missing (h : fieldValue? "properties" fields = none) :
    PropertiesFault name fields ((Cause.fieldMissing "properties").within name)
  | notMapping {value : Tree} (hvalue : fieldValue? "properties" fields = some value)
    (h : ∀ entries, value.fields? = some entries → entries = []) :
    PropertiesFault name fields (Cause.propertiesNotMapping.within name)
  | property {value : Tree} {before after : Fields} {entry : Tree × Tree} {fault : Fault}
    (hvalue : fieldValue? "properties" fields = some value)
    (hentries : value.fields? = some (before ++ entry :: after))
    (hbefore : ∀ earlier ∈ before, ∀ other, ¬ PropertyFault name earlier other)
    (h : PropertyFault name entry fault) : PropertiesFault name fields fault

/-- What an object requires is not a list of names of its properties. -/
def RequiredFault (name : String) (fields : Fields) (fault : Fault) : Prop :=
  ∃ entries stated, propertyEntries name fields = .ok entries ∧
    List.Forall₂ ReadsProperty entries stated ∧
    requiredField name ((collectProperties stated).map (·.1)) fields = .error fault

section Types

variable {name : String} {fields : Fields} {fault : Fault}

theorem elementValue_eq_error_iff :
    elementValue name fields = .error fault ↔
      (∀ value, fieldValue? "items" fields = some value → value.isVoid = true) ∧
        fault = Cause.itemsMissing.within name := by
  unfold elementValue
  cases fieldValue? "items" fields with
  | none => simp [eq_comm (b := fault)]
  | some value => cases hvoid : value.isVoid <;> simp [hvoid, eq_comm (b := fault)]

theorem propertyEntries_eq_error_iff :
    propertyEntries name fields = .error fault ↔
      (fieldValue? "properties" fields = none ∧
        fault = (Cause.fieldMissing "properties").within name) ∨
      ∃ value, fieldValue? "properties" fields = some value ∧
        (∀ entries, value.fields? = some entries → entries = []) ∧
        fault = Cause.propertiesNotMapping.within name := by
  unfold propertyEntries
  cases fieldValue? "properties" fields with
  | none => simp [eq_comm (b := fault)]
  | some value =>
    cases hentries : value.fields? with
    | none => simp [hentries, eq_comm (b := fault)]
    | some entries => cases entries <;> simp [hentries, eq_comm (b := fault)]

theorem element_failsBy (name : String) (fields : Fields) :
    (liftM (elementValue name fields) >>= fun value =>
      TypeExpr.ofTree name "items" (itemsName name) value).FailsBy [ElementFault name fields] := by
  refine .of_iff fun fault => ?_
  rw [Traced.outcome_bind_eq_error_iff, Traced.outcome_lift, elementValue_eq_error_iff]
  simp only [elementValue_eq_ok_iff]
  constructor
  · intro h
    rcases h with ⟨h, rfl⟩ | ⟨value, ⟨hvalue, hvoid⟩, h⟩
    · exact .missing h
    · exact .type hvalue hvoid h
  · intro h
    cases h with
    | missing h => exact .inl ⟨h, rfl⟩
    | type hvalue hvoid h => exact .inr ⟨_, ⟨hvalue, hvoid⟩, h⟩

theorem exists_readsProperty_iff_not_propertyFault {owner : String} {entry : Tree × Tree} :
    (∃ property, ReadsProperty entry property) ↔ ∀ other, ¬ PropertyFault owner entry other := by
  constructor
  · intro h other hother
    obtain ⟨property, hname, htype⟩ := h
    cases hother with
    | key hnone => cases hname.symm.trans hnone
    | type hname' hfails =>
      cases hname.symm.trans hname'
      cases hfails.symm.trans (TypeExpr.ofTree_eq_ok_iff.mpr htype)
  · intro h
    cases hname : entry.1.text? with
    | none => exact absurd (.key hname) (h _)
    | some property =>
      cases htype : (TypeExpr.ofTree owner (propertyLabel property) property entry.2).outcome with
      | ok type => exact ⟨(property, type), hname, TypeExpr.ofTree_eq_ok_iff.mp htype⟩
      | error fault => exact absurd (.type hname htype) (h fault)

/-- Of the entries that have a fault the first one is reported. -/
theorem readProperties_eq_error_iff_propertyFault {owner : String} {entries : Fields} :
    (readProperties owner entries).outcome = .error fault ↔
      ∃ before entry after, entries = before ++ entry :: after ∧
        (∀ earlier ∈ before, ∀ other, ¬ PropertyFault owner earlier other) ∧
        PropertyFault owner entry fault := by
  simp only [← exists_readsProperty_iff_not_propertyFault, ← List.exists_forall₂_iff,
    readProperties_eq_error_iff]
  constructor
  · intro h
    obtain ⟨before, entry, after, stated, heq, hbefore, ⟨hnone, rfl⟩ | ⟨property, hname, h⟩⟩ := h
    · exact ⟨before, entry, after, heq, ⟨stated, hbefore⟩, .key hnone⟩
    · exact ⟨before, entry, after, heq, ⟨stated, hbefore⟩, .type hname h⟩
  · intro h
    obtain ⟨before, entry, after, heq, ⟨stated, hbefore⟩, h⟩ := h
    refine ⟨before, entry, after, stated, heq, hbefore, ?_⟩
    cases h with
    | key hnone => exact .inl ⟨hnone, rfl⟩
    | type hname h => exact .inr ⟨_, hname, h⟩

theorem properties_failsBy (name : String) (fields : Fields) :
    (liftM (propertyEntries name fields) >>= fun entries =>
      readProperties name entries).FailsBy [PropertiesFault name fields] := by
  refine .of_iff fun fault => ?_
  rw [Traced.outcome_bind_eq_error_iff, Traced.outcome_lift, propertyEntries_eq_error_iff]
  simp only [propertyEntries_eq_ok_iff, readProperties_eq_error_iff_propertyFault]
  constructor
  · intro h
    rcases h with (⟨h, rfl⟩ | ⟨value, hvalue, h, rfl⟩) | ⟨entries, ⟨value, hvalue, hentries, -⟩, h⟩
    · exact .missing h
    · exact .notMapping hvalue h
    · obtain ⟨before, entry, after, rfl, hbefore, h⟩ := h
      exact .property hvalue hentries hbefore h
  · intro h
    cases h with
    | missing h => exact .inl (.inl ⟨h, rfl⟩)
    | notMapping hvalue h => exact .inl (.inr ⟨_, hvalue, h, rfl⟩)
    | property hvalue hentries hbefore h =>
      exact .inr ⟨_, ⟨_, hvalue, hentries, by simp⟩, _, _, _, rfl, hbefore, h⟩

theorem required_failsBy {stated : List (String × TypeExpr)}
    (h : (liftM (propertyEntries name fields) >>= fun entries =>
      readProperties name entries).outcome = .ok stated) :
    (liftM (requiredField name ((collectProperties stated).map (·.1)) fields) :
      Traced Fault (List String)).FailsBy [RequiredFault name fields] := by
  simp only [Traced.outcome_bind_eq_ok_iff, Traced.outcome_lift, readProperties_eq_ok_iff] at h
  obtain ⟨entries, hentries, hstated⟩ := h
  refine .of_iff fun fault => ?_
  rw [Traced.outcome_lift]
  constructor
  · intro h
    exact ⟨entries, stated, hentries, hstated, h⟩
  · intro h
    obtain ⟨entries', stated', hentries', hstated', h⟩ := h
    cases hentries.symm.trans hentries'
    have heq : (readProperties name entries).outcome = .ok stated :=
      readProperties_eq_ok_iff.mpr hstated
    cases heq.symm.trans (readProperties_eq_ok_iff.mpr hstated')
    exact h

end Types

/-! ## Bodies -/

/-- The checks of the fields of a kind, in order. -/
def Kind.fieldChecks (kind : Kind) (name : String) (fields : Fields) : List (Fault → Prop) :=
  match kind with
  | .int => [WordFault IntFormat name "format" fields]
  | .number => [WordFault NumberFormat name "format" fields]
  | .bool => []
  | .string => [fun fault => enumField name fields = .error fault]
  | .array => [ElementFault name fields, WordFault Container name "array_type" fields]
  | .object => [PropertiesFault name fields, RequiredFault name fields]

/-- The checks of a body that states the kind, in order. -/
def Kind.checks (kind : Kind) (name : String) (fields : Fields) : List (Fault → Prop) :=
  [KeyFault kind name fields, DescriptionFault name fields] ++ kind.fieldChecks name fields

theorem wordField_failsBy (α : Type) [Spelled α] [Inhabited α] (name field : String)
    (fields : Fields) :
    (liftM (wordField α name field fields) : Traced Fault α).FailsBy
      [WordFault α name field fields] :=
  .of_iff fun _ => wordField_eq_error_iff

/-- Of the faults of a body read as a kind that of the first check is reported. -/
theorem Definition.ofFieldsAs_failsBy (kind : Kind) (name : String) (fields : Fields) :
    (Definition.ofFieldsAs kind name fields).FailsBy (kind.checks name fields) := by
  have hheader := Header.ofFields_failsBy kind name fields
  unfold Kind.checks
  cases kind with
  | int =>
    rw [ofFieldsAs_int]
    exact hheader.bind fun header _ => (wordField_failsBy IntFormat name "format" fields).bind_pure
  | number =>
    rw [ofFieldsAs_number]
    exact hheader.bind fun header _ =>
      (wordField_failsBy NumberFormat name "format" fields).bind_pure
  | bool =>
    rw [ofFieldsAs_bool]
    exact hheader.bind fun header _ => .pure _
  | string =>
    rw [ofFieldsAs_string]
    exact hheader.bind fun header _ => (Traced.FailsBy.of_iff fun fault => Iff.rfl).bind_pure
  | array =>
    rw [ofFieldsAs_array]
    refine hheader.bind fun header _ => ?_
    rw [← bind_assoc]
    exact (element_failsBy name fields).bind fun element _ =>
      (wordField_failsBy Container name "array_type" fields).bind_pure
  | object =>
    rw [ofFieldsAs_object]
    refine hheader.bind fun header _ => ?_
    rw [← bind_assoc]
    exact (properties_failsBy name fields).bind fun stated hstated =>
      (required_failsBy hstated).bind_pure

section Stated

variable {kind : Kind} {name : String} {fields : Fields}

/-- A body is read as the kind that it states. -/
theorem Definition.ofFields_of_statesKind (hkind : StatesKind kind fields) :
    Definition.ofFields name fields = Definition.ofFieldsAs kind name fields := by
  have hread : Kind.ofFields name fields = .ok kind := Kind.ofFields_eq_ok_iff.mpr hkind
  rw [Definition.ofFields, hread, Traced.lift_ok, pure_bind]

theorem Definition.ofFields_failsBy (hkind : StatesKind kind fields) :
    (Definition.ofFields name fields).FailsBy (kind.checks name fields) := by
  rw [ofFields_of_statesKind hkind]
  exact ofFieldsAs_failsBy kind name fields

/-- Where all keys are admitted, an unknown field is one of a body written in place. -/
theorem Definition.innerFault_of_fieldUnknown {fault : Fault} {found : String}
    (hkind : StatesKind kind fields) (hall : ∀ entry ∈ fields, kind.Admits entry.1)
    (h : (Definition.ofFields name fields).outcome = .error fault)
    (hcause : fault.cause = .fieldUnknown found) : InnerFault name fields kind fault := by
  have hread : Kind.ofFields name fields = .ok kind := Kind.ofFields_eq_ok_iff.mpr hkind
  rcases ofFields_eq_error_iff.mp h with hown | ⟨_, _, hread', _, hinner⟩
  · cases hown with
    | kind h => cases hread.symm.trans h
    | header hread' h =>
      cases hread.symm.trans hread'
      rcases (Header.ofFields_failsBy kind name fields fault).mp h with hkey | ⟨-, h⟩
      · obtain ⟨entry, hentry, hnot⟩ := exists_keyFault_iff.mp ⟨fault, hkey⟩
        exact absurd (hall entry hentry) hnot
      · cases firstOf_singleton.mp h
        cases hcause
    | shape _ _ h => exact absurd hcause (h.inField.notKey found)
  · cases hread.symm.trans hread'
    exact hinner

end Stated

/-- A body that states no kind there is has that fault, whatever else is wrong. Otherwise it is read
as the kind it states, and of its faults that of the first check is reported. If the kind does not
admit a key, that is the fault of the first such key; and if it admits all, then a fault of an
unknown field is that of a body written in place. -/
theorem Definition.ofFields_precedence (name : String) (fields : Fields) :
    ((¬ ∃ kind, StatesKind kind fields) →
      ∃ fault, KindFault name fields fault ∧
        (Definition.ofFields name fields).outcome = .error fault) ∧
    ∀ kind, StatesKind kind fields →
      (∀ fault, (Definition.ofFields name fields).outcome = .error fault ↔
        FirstOf (kind.checks name fields) fault) ∧
      ((∃ entry ∈ fields, ¬ kind.Admits entry.1) →
        ∃ fault, KeyFault kind name fields fault ∧
          (Definition.ofFields name fields).outcome = .error fault) ∧
      ((∀ entry ∈ fields, kind.Admits entry.1) →
        ∀ fault, (Definition.ofFields name fields).outcome = .error fault →
          ∀ found, fault.cause = .fieldUnknown found → InnerFault name fields kind fault) := by
  refine ⟨fun hnone => ?_, fun kind hkind => ⟨ofFields_failsBy hkind, fun hkey => ?_, ?_⟩⟩
  · cases hread : Kind.ofFields name fields with
    | ok kind => exact absurd ⟨kind, Kind.ofFields_eq_ok_iff.mp hread⟩ hnone
    | error fault =>
      refine ⟨fault, Kind.ofFields_eq_error_iff.mp hread, ?_⟩
      exact ofFields_eq_error_iff.mpr (.inl (.kind hread))
  · obtain ⟨fault, hfault⟩ := exists_keyFault_iff.mpr hkey
    exact ⟨fault, hfault, (ofFields_failsBy hkind fault).mpr (.inl hfault)⟩
  · exact fun hall fault hfails found => innerFault_of_fieldUnknown hkind hall hfails

/-- An integer stated with a field that no kind has. -/
def sizedBody : Fields :=
  [(.text "type", .text "int"), (.text "size", .text "big")]

/-- An array of such integers, whose container is misspelled. -/
def sizedArrayBody : Fields :=
  [(.text "type", .text "array"), (.text "array_type", .text "bag"),
    (.text "items", .map sizedBody)]

/-- The fault inside the elements is reported, and not that of the container. -/
theorem ofFields_precedence_sizedArrayBody :
    WordFault Container "Row" "array_type" sizedArrayBody
        ((Cause.wordUnknown "array_type" "bag").within "Row") ∧
      (Definition.ofFields "Row" sizedArrayBody).outcome =
        .error ((Cause.fieldUnknown "size").within "RowItems") ∧
      InnerFault "Row" sizedArrayBody .array ((Cause.fieldUnknown "size").within "RowItems") := by
  have hadmits : ∀ entry ∈ sizedArrayBody, Kind.Admits .array entry.1 := by
    simp only [Kind.admits_iff]
    decide
  have hsize : KeyFault .int "RowItems" sizedBody ((Cause.fieldUnknown "size").within "RowItems") :=
    keyFault_iff.mpr ⟨_, rfl, rfl⟩
  have hinner : (Definition.ofFields (itemsName "Row") sizedBody).outcome =
      .error ((Cause.fieldUnknown "size").within "RowItems") := by
    obtain ⟨-, hkind⟩ := Definition.ofFields_precedence (itemsName "Row") sizedBody
    exact ((hkind .int ⟨_, rfl, rfl⟩).1 _).mpr (.inl hsize)
  have helement : ElementFault "Row" sizedArrayBody
      ((Cause.fieldUnknown "size").within "RowItems") :=
    .type rfl rfl (TypeExpr.ofTree_eq_error_iff.mpr (.inr ⟨_, rfl, hinner⟩))
  obtain ⟨-, hkind⟩ := Definition.ofFields_precedence "Row" sizedArrayBody
  obtain ⟨hfirst, -, hnested⟩ := hkind .array ⟨_, rfl, rfl⟩
  have houtcome := (hfirst ((Cause.fieldUnknown "size").within "RowItems")).mpr <| by
    refine .inr ⟨fun other hother => ?_, .inr ⟨fun other hother => ?_, .inl helement⟩⟩
    · obtain ⟨entry, hentry, hnot⟩ := exists_keyFault_iff.mp ⟨other, hother⟩
      exact hnot (hadmits entry hentry)
    · cases hother with
      | notText hvalue => cases hvalue
  exact ⟨wordField_eq_error_iff.mp rfl, houtcome, hnested hadmits _ houtcome _ rfl⟩

end TypeTable
