import TypeTable.Proofs.Definition.FieldKeys
import TypeTable.Proofs.Definition.Precedence

/-!
# The kind that a body states

A body that is read as a kind is read without regard to the kind that it states: the entry under
`type` may be changed, taken out or put in (`Definition.ofFieldsAs_eq_of_withoutKind`). To read a
body as a kind is therefore to read the body that states this kind
(`Definition.ofFields_stateKind`). This goes for the body itself only. Those written in place in it
are read as the kinds that they state: `Definition.ofFieldsAs_ignores_statedKind`.
-/

namespace TypeTable

/-! ## The entry that states the kind -/

/-- The entries of a body but for the one that states its kind. -/
def withoutKind (fields : Fields) : Fields :=
  fields.filter fun entry => !entry.1.isText "type"

/-- A body with another value where it states its kind. -/
def restateKind (value : Tree) (fields : Fields) : Fields :=
  fields.map fun entry => (entry.1, if entry.1.isText "type" then value else entry.2)

/-- A body that states the kind, whatever it stated before. -/
def stateKind (kind : Kind) (fields : Fields) : Fields :=
  (.text "type", .text (word kind)) :: withoutKind fields

section Entries

variable (fields : Fields)

theorem withoutKind_cons_type (value : Tree) :
    withoutKind ((.text "type", value) :: fields) = withoutKind fields :=
  List.filter_cons_of_neg Bool.false_ne_true

theorem withoutKind_withoutKind : withoutKind (withoutKind fields) = withoutKind fields := by
  rw [withoutKind, withoutKind, List.filter_filter]
  simp only [Bool.and_self]

theorem withoutKind_stateKind (kind : Kind) :
    withoutKind (stateKind kind fields) = withoutKind fields := by
  rw [stateKind, withoutKind_cons_type, withoutKind_withoutKind]

theorem withoutKind_restateKind (value : Tree) :
    withoutKind (restateKind value fields) = withoutKind fields := by
  induction fields with
  | nil => rfl
  | cons entry rest ih =>
    unfold withoutKind restateKind at *
    rw [List.map_cons, List.filter_cons, List.filter_cons, ih]
    cases entry.1.isText "type" <;> rfl

theorem withoutKind_insertIdx (position : Nat) (value : Tree) :
    withoutKind (fields.insertIdx position (.text "type", value)) = withoutKind fields := by
  induction fields generalizing position with
  | nil => cases position <;> rfl
  | cons entry rest ih =>
    cases position with
    | zero => exact withoutKind_cons_type (entry :: rest) value
    | succ position =>
      unfold withoutKind at *
      rw [List.insertIdx_succ_cons, List.filter_cons, List.filter_cons, ih]

theorem statesKind_stateKind (kind : Kind) : StatesKind kind (stateKind kind fields) :=
  ⟨.text (word kind), by rw [stateKind, fieldValue?_cons_text, if_pos rfl], rfl⟩

/-- A search among the keys passes over the one that is taken out. -/
theorem find?_withoutKind (test : Tree → Bool) (htest : test (.text "type") = false) :
    ((withoutKind fields).find? fun entry => test entry.1) =
      fields.find? fun entry => test entry.1 := by
  rw [withoutKind, List.find?_filter]
  congr 1
  funext entry
  cases hkey : entry.1.isText "type" with
  | false => simp
  | true => simp [Tree.isText_iff.mp hkey, htest]

theorem fieldValue?_withoutKind {field : String} (hfield : field ≠ "type") :
    fieldValue? field (withoutKind fields) = fieldValue? field fields := by
  have htest : (Tree.text "type").isText field = false := beq_false_of_ne hfield.symm
  rw [fieldValue?, fieldValue?, find?_withoutKind fields (·.isText field) htest]

theorem Header.ofFields_withoutKind (name : String) (own : List String) :
    Header.ofFields name own (withoutKind fields) = Header.ofFields name own fields := by
  -- The key under which a kind is stated is known, whatever the fields of the kind are.
  have hknown : (!isFieldKey own (.text "type")) = false := rfl
  rw [Header.ofFields, Header.ofFields, fieldValue?_withoutKind fields (by decide),
    find?_withoutKind fields (fun key => !isFieldKey own key) hknown]

end Entries

/-! ## Reading as a kind -/

section Reading

variable {kind : Kind} {name : String} {fields : Fields}

theorem Definition.ofFieldsAs_withoutKind (kind : Kind) (name : String) (fields : Fields) :
    Definition.ofFieldsAs kind name (withoutKind fields) =
      Definition.ofFieldsAs kind name fields := by
  refine ofFieldsAs_congr (Header.ofFields_withoutKind fields name kind.ownFields) ?_
  intro field hfield
  have htype : "type" ∉ kind.ownFields := by cases kind <;> decide
  exact fieldValue?_withoutKind fields fun heq => htype (heq ▸ hfield)

/-- Two bodies that differ at most in the kind they state are read alike as any kind. -/
theorem Definition.ofFieldsAs_eq_of_withoutKind {others : Fields}
    (h : withoutKind fields = withoutKind others) :
    Definition.ofFieldsAs kind name fields = Definition.ofFieldsAs kind name others := by
  rw [← ofFieldsAs_withoutKind kind name fields, h, ofFieldsAs_withoutKind]

/-- To read a body as a kind is to read the body that states this kind. -/
theorem Definition.ofFields_stateKind (kind : Kind) (name : String) (fields : Fields) :
    Definition.ofFields name (stateKind kind fields) = Definition.ofFieldsAs kind name fields := by
  rw [ofFields_of_statesKind (statesKind_stateKind fields kind),
    ofFieldsAs_eq_of_withoutKind (withoutKind_stateKind fields kind)]

/-- A body is read where it states the kind of the definition and is read as that kind. -/
theorem Definition.ofFields_eq_ok_iff_statesKind {d : Definition} :
    (Definition.ofFields name fields).outcome = .ok d ↔
      StatesKind d.kind fields ∧ (Definition.ofFieldsAs d.kind name fields).outcome = .ok d := by
  rw [ofFields_eq_ok_iff, ofFieldsAs_eq_ok_iff, Kind.ofFields_eq_ok_iff, StatesKind]
  simp only [true_and]

/-- A body is not read where it states no kind, or is not read as the kind that it states. -/
theorem Definition.ofFields_eq_error_iff_statesKind {fault : Fault} :
    (Definition.ofFields name fields).outcome = .error fault ↔
      KindFault name fields fault ∨
        ∃ kind, StatesKind kind fields ∧
          (Definition.ofFieldsAs kind name fields).outcome = .error fault := by
  rw [Definition.ofFields, Traced.outcome_bind_eq_error_iff, Traced.outcome_lift,
    Kind.ofFields_eq_error_iff]
  simp only [Kind.ofFields_eq_ok_iff, StatesKind]

end Reading

/-! ## Bodies inside -/

theorem heldValue?_stateKind (kind : Kind) (step : Step) (fields : Fields) :
    heldValue? step (stateKind kind fields) = heldValue? step fields := by
  have hfield (field : String) (hne : field ≠ "type") :
      fieldValue? field (stateKind kind fields) = fieldValue? field fields := by
    rw [stateKind, fieldValue?_cons_text, if_neg hne.symm, fieldValue?_withoutKind fields hne]
  cases step with
  | items => exact hfield "items" (by decide)
  | property name => rw [heldValue?, heldValue?, hfield "properties" (by decide)]

/-- A body that states a kind holds what it held before. -/
theorem at?_stateKind (kind : Kind) (fields : Fields) (step : Step) (path : List Step) :
    (Tree.map (stateKind kind fields)).at? (step :: path) =
      (Tree.map fields).at? (step :: path) := by
  have hstep : ((Tree.map (stateKind kind fields)).fields?.bind (heldValue? step)) =
      (Tree.map fields).fields?.bind (heldValue? step) := heldValue?_stateKind kind step fields
  rw [Tree.at?, Tree.at?, hstep]

theorem ReadsType.exists_ok {name : String} {value : Tree} {type : TypeExpr} {inner : Fields}
    (h : ReadsType name value type) (hinner : value.fields? = some inner) :
    ∃ e, (Definition.ofFields name inner).outcome = .ok e := by
  cases hread : (Definition.ofFields name inner).outcome with
  | ok e => exact ⟨e, rfl⟩
  | error fault => exact absurd hread (h.outcome_ne_error hinner)

/-- The bodies inside a body that is read are read. -/
theorem Definition.exists_ok_of_leadsTo {fields body : Fields} {path : List Step}
    (h : LeadsTo fields path body) {name : String} {d : Definition}
    (hread : (Definition.ofFields name fields).outcome = .ok d) :
    ∃ e, (Definition.ofFields (pathName name path) body).outcome = .ok e := by
  induction h generalizing name d with
  | here => exact ⟨d, by rw [pathName_nil, hread]⟩
  | items hkind hvalue hinner _ ih =>
    obtain ⟨hstated, -, hshape⟩ := ofFields_eq_ok_iff.mp hread
    obtain ⟨header, shape⟩ := d
    cases hshape with
    | array hvalue' helement _ =>
      cases hvalue.symm.trans (elementValue_eq_ok_iff.mp hvalue').1
      obtain ⟨e, he⟩ := helement.exists_ok hinner
      rw [pathName_cons]
      exact ih he
    | _ => cases hstated.symm.trans (Kind.ofFields_eq_ok_iff.mpr hkind)
  | property hkind hvalue hentries hentry hname hinner _ ih =>
    obtain ⟨hstated, -, hshape⟩ := ofFields_eq_ok_iff.mp hread
    obtain ⟨header, shape⟩ := d
    cases hshape with
    | object hentries' hproperties _ =>
      obtain ⟨value', hvalue', hfields, -⟩ := propertyEntries_eq_ok_iff.mp hentries'
      cases hvalue.symm.trans hvalue'
      cases hentries.symm.trans hfields
      obtain ⟨property, -, hproperty, htype⟩ := hproperties.exists_of_mem_left hentry
      cases hname.symm.trans hproperty
      obtain ⟨e, he⟩ := htype.exists_ok hinner
      rw [pathName_cons]
      exact ih he
    | _ => cases hstated.symm.trans (Kind.ofFields_eq_ok_iff.mpr hkind)

/-- What stands at a path of a definition, behind one step at least, is read from the body at the
same path, as the kind that this body states. -/
theorem Definition.exists_body_at {kind : Kind} {name : String} {fields : Fields}
    {d inner : Definition} {step : Step} {path : List Step}
    (h : (Definition.ofFieldsAs kind name fields).outcome = .ok d)
    (hpath : d.toInline.at? (step :: path) = some inner.toInline) :
    ∃ value body, (Tree.map fields).at? (step :: path) = some value ∧ value.fields? = some body ∧
      StatesKind inner.kind body ∧
      (Definition.ofFieldsAs inner.kind (pathName name (step :: path)) body).outcome =
        .ok inner := by
  rw [← ofFields_stateKind] at h
  have houter : ReadsType name (.map (stateKind kind fields)) d.toInline := .inline rfl h
  obtain ⟨value, hvalue, htype⟩ := (rel_at? houter (step :: path)).exists_of_eq_some hpath
  rw [at?_stateKind] at hvalue
  cases htype with
  | inline hbody hinner =>
    exact ⟨value, _, hvalue, hbody, ofFields_eq_ok_iff_statesKind.mp hinner⟩

/-- Reading a body as a kind gives the same, with the same events, whatever the body has under
`type` and where it has nothing there; so a body that states the kind is read as the rest of it is.
What is read is of the kind. The bodies written in place in it, at any depth, are read as the kinds
that they state themselves, and where reading fails, it does so in a body that is read in this way.
-/
theorem Definition.ofFieldsAs_ignores_statedKind (kind : Kind) (name : String) (fields : Fields) :
    (∀ value, Definition.ofFieldsAs kind name (restateKind value fields) =
      Definition.ofFieldsAs kind name fields) ∧
    Definition.ofFieldsAs kind name (withoutKind fields) =
      Definition.ofFieldsAs kind name fields ∧
    (∀ position value,
      Definition.ofFieldsAs kind name (fields.insertIdx position (.text "type", value)) =
        Definition.ofFieldsAs kind name fields) ∧
    (StatesKind kind fields → Definition.ofFields name fields =
      Definition.ofFieldsAs kind name (withoutKind fields)) ∧
    (∀ d, (Definition.ofFieldsAs kind name fields).outcome = .ok d → d.kind = kind ∧
      (∀ step path inner, d.toInline.at? (step :: path) = some inner.toInline →
        ∃ value body, (Tree.map fields).at? (step :: path) = some value ∧
          value.fields? = some body ∧ StatesKind inner.kind body ∧
          (Definition.ofFieldsAs inner.kind (pathName name (step :: path)) body).outcome =
            .ok inner) ∧
      ∀ path body, LeadsTo (stateKind kind fields) path body →
        ∃ inner, StatesKind inner.kind body ∧
          (Definition.ofFieldsAs inner.kind (pathName name path) body).outcome = .ok inner) ∧
    ∀ fault, (Definition.ofFieldsAs kind name fields).outcome = .error fault →
      ∃ path body, FaultAt name (stateKind kind fields) fault path body ∧
        (KindFault (pathName name path) body fault ∨ ∃ own, StatesKind own body ∧
          (Definition.ofFieldsAs own (pathName name path) body).outcome = .error fault) := by
  refine ⟨fun value => ?_, ofFieldsAs_withoutKind kind name fields, fun position value => ?_,
    fun hkind => ?_, fun d hread => ⟨(ofFieldsAs_eq_ok_iff.mp hread).1,
      fun step path inner hpath => exists_body_at hread hpath, fun path body hleads => ?_⟩,
    fun fault hfails => ?_⟩
  · exact ofFieldsAs_eq_of_withoutKind (withoutKind_restateKind fields value)
  · exact ofFieldsAs_eq_of_withoutKind (withoutKind_insertIdx fields position value)
  · rw [ofFields_of_statesKind hkind, ofFieldsAs_withoutKind]
  · rw [← ofFields_stateKind] at hread
    obtain ⟨inner, hinner⟩ := exists_ok_of_leadsTo hleads hread
    exact ⟨inner, ofFields_eq_ok_iff_statesKind.mp hinner⟩
  · rw [← ofFields_stateKind] at hfails
    obtain ⟨path, body, hfault⟩ := exists_faultAt hfails
    exact ⟨path, body, hfault, ofFields_eq_error_iff_statesKind.mp hfault.fails⟩

/-- An array whose elements are written in place and state a kind. -/
def listBody (element : Kind) : Fields :=
  [(.text "type", .text "array"), (.text "items", .map [(.text "type", .text (word element))])]

/-- An array of integers. -/
def intList : Definition :=
  ⟨⟨"List", none⟩, .array .array (.inline ⟨"ListItems", none⟩ (.int .int32))⟩

theorem ofFieldsAs_listBody :
    (Definition.ofFieldsAs .array "List" (listBody .int)).outcome = .ok intList := by
  have helement : ReadsType "ListItems" (.map [(.text "type", .text "int")])
      (.inline ⟨"ListItems", none⟩ (.int .int32)) :=
    .inline rfl (Definition.ofFields_eq_ok_iff.mpr ⟨rfl, rfl, .int rfl⟩)
  exact Definition.ofFieldsAs_eq_ok_iff.mpr ⟨rfl, rfl, .array rfl helement rfl⟩

/-- An array that states to be a truth value is an array of integers all the same. Elements that
state to be truth values are not integers. -/
theorem ofFieldsAs_ignores_statedKind_list :
    StatesKind .array (listBody .int) ∧
      Definition.ofFields "List" (listBody .int) =
        Definition.ofFieldsAs .array "List" (withoutKind (listBody .int)) ∧
      (Definition.ofFieldsAs .array "List" (restateKind (.text "bool") (listBody .int))).outcome =
        .ok intList ∧
      (Definition.ofFieldsAs .array "List" (listBody .bool)).outcome ≠ .ok intList := by
  obtain ⟨hrestate, -, -, hstated, -⟩ :=
    Definition.ofFieldsAs_ignores_statedKind .array "List" (listBody .int)
  have hkind : StatesKind .array (listBody .int) := ⟨_, rfl, rfl⟩
  refine ⟨hkind, hstated hkind, by rw [hrestate, ofFieldsAs_listBody], fun hread => ?_⟩
  -- The elements would have to state the kind of integers.
  obtain ⟨-, -, -, -, hok, -⟩ :=
    Definition.ofFieldsAs_ignores_statedKind .array "List" (listBody .bool)
  obtain ⟨-, hinner, -⟩ := hok intList hread
  obtain ⟨value, body, hvalue, hbody, ⟨type, htype, hint⟩, -⟩ :=
    hinner .items [] ⟨⟨"ListItems", none⟩, .int .int32⟩ rfl
  cases hvalue
  cases hbody
  cases htype
  exact absurd hint (by decide)

end TypeTable
