import TypeTable.Proofs.Definition.Children
import TypeTable.Proofs.Definition.Paths

/-!
# Bodies under another name

The name that a body is read under is that of the definition, and with the suffix of elements those
of the types written in place as its elements, their elements, and so on. It goes no further: below
a property, names begin with that of the property. `Definition.under` gives a definition another
name, and `Definition.ofFields_under` says that this is what is read from the body under that name.
`Definition.ofFields_two_names` compares two readings of one body: both give a definition and these
differ in the names on the spine of arrays only (`OnSpine`), or both meet the same fault, with at
most such names apart (`Fault.SamePlace`).
-/

namespace TypeTable

open Fault (Cause)

mutual

/-- The shape of a type that is given a name: what an array writes in place is named after it. -/
def Shape.under (name : String) : Shape → Shape
  | .array container element => .array container (element.under (itemsName name))
  | shape => shape
termination_by structural shape => shape

/-- A type expression of which the type written in place is given a name. -/
def TypeExpr.under (name : String) : TypeExpr → TypeExpr
  | .named target => .named target
  | .inline header shape => .inline { header with name := name } (shape.under name)
termination_by structural type => type

end

/-- A definition that is given a name. -/
def Definition.under (name : String) (d : Definition) : Definition :=
  ⟨{ d.toHeader with name := name }, d.shape.under name⟩

/-! ## Faults of one place -/

/-- Two faults of a body that is read under two names: they have one cause, and they are found in
types of one name, or in elements so many arrays deep in what the two names stand for. -/
structure Fault.SamePlace (name other : String) (fault fault' : Fault) : Prop where
  cause : fault.cause = fault'.cause
  context : fault.context = fault'.context ∨ ∃ depth,
    fault.context = some (elementName name depth) ∧
      fault'.context = some (elementName other depth)

namespace Fault.SamePlace

variable {name other : String} {fault fault' : Fault}

theorem refl (fault : Fault) : fault.SamePlace name other fault :=
  ⟨rfl, .inl rfl⟩

/-- A cause in the body itself. -/
theorem within (cause : Cause) : SamePlace name other (cause.within name) (cause.within other) :=
  ⟨rfl, .inr ⟨0, by rw [elementName_zero]; rfl, by rw [elementName_zero]; rfl⟩⟩

/-- What is one place in the elements of an array is one place in the array. -/
theorem of_items (h : SamePlace (itemsName name) (itemsName other) fault fault') :
    SamePlace name other fault fault' := by
  obtain ⟨hcause, hcontext⟩ := h
  refine ⟨hcause, hcontext.imp_right fun h => ?_⟩
  obtain ⟨depth, hname, hother⟩ := h
  rw [elementName_itemsName] at hname hother
  exact ⟨depth + 1, hname, hother⟩

end Fault.SamePlace

/-! ## Single fields

What a field gives does not depend on the name of the body. The name is only shown by faults. -/

section Fields

variable (name other : String) (fields : Fields)

theorem rel_readWord (α : Type) [Spelled α] (field : String) (value : Tree) :
    Except.Rel (Fault.SamePlace name other) Eq (readWord α (some name) field value)
      (readWord α (some other) field value) := by
  unfold readWord
  cases value.text?.bind (Spelled.ofWord? (α := α)) with
  | some member => exact .ok rfl
  | none => exact .error (.within _)

theorem rel_wordField (α : Type) [Spelled α] [Inhabited α] (field : String) :
    Except.Rel (Fault.SamePlace name other) Eq (wordField α name field fields)
      (wordField α other field fields) := by
  unfold wordField
  cases fieldValue? field fields with
  | some value => exact rel_readWord name other α field value
  | none => exact .ok rfl

theorem rel_kind :
    Except.Rel (Fault.SamePlace name other) Eq (Kind.ofFields name fields)
      (Kind.ofFields other fields) := by
  unfold Kind.ofFields
  cases fieldValue? "type" fields with
  | some value => exact rel_readWord name other Kind "type" value
  | none => exact .error (.within _)

theorem rel_header (own : List String) :
    Except.Rel (Fault.SamePlace name other)
      (fun header header' => header' = { header with name := other })
      (Header.ofFields name own fields) (Header.ofFields other own fields) := by
  unfold Header.ofFields
  cases fields.find? fun entry => !isFieldKey own entry.1 with
  | some entry => exact .error (.within _)
  | none =>
    cases fieldValue? "description" fields with
    | none => exact .ok rfl
    | some value =>
      cases value with
      | text description => exact .ok rfl
      | _ => exact .error (.within _)

theorem rel_enumValues (seen : List String) (items : List Tree) :
    Except.Rel (Fault.SamePlace name other) Eq (enumValues name seen items)
      (enumValues other seen items) := by
  induction items generalizing seen with
  | nil => exact .ok rfl
  | cons item rest ih =>
    unfold enumValues
    cases item.text? with
    | none => exact .error (.within _)
    | some value =>
      dsimp only
      split
      · exact .error (.within _)
      · exact ih _

theorem rel_enumField :
    Except.Rel (Fault.SamePlace name other) Eq (enumField name fields)
      (enumField other fields) := by
  unfold enumField
  cases fieldValue? "enum" fields with
  | none => exact .ok rfl
  | some value =>
    have hvalues : Except.Rel (Fault.SamePlace name other) Eq (enumeration name value)
        (enumeration other value) := by
      unfold enumeration
      cases value.items? with
      | none => exact .error (.within _)
      | some items =>
        cases items with
        | nil => exact .error (.within _)
        | cons item rest => exact rel_enumValues name other [] (item :: rest)
    exact hvalues.bind fun _ _ heq => .ok (congrArg some heq)

theorem rel_requiredNames (declared seen : List String) (items : List Tree) :
    Except.Rel (Fault.SamePlace name other) Eq (requiredNames name declared seen items)
      (requiredNames other declared seen items) := by
  induction items generalizing seen with
  | nil => exact .ok rfl
  | cons item rest ih =>
    unfold requiredNames
    cases item.text? with
    | none => exact .error (.within _)
    | some property =>
      dsimp only
      split
      · exact ih _
      · exact .error (.within _)

theorem rel_requiredField (declared : List String) :
    Except.Rel (Fault.SamePlace name other) Eq (requiredField name declared fields)
      (requiredField other declared fields) := by
  unfold requiredField
  cases fieldValue? "required" fields with
  | none => exact .ok rfl
  | some value =>
    dsimp only
    split
    · exact .ok rfl
    · cases value.items? with
      | none => exact .error (.within _)
      | some items => exact rel_requiredNames name other declared [] items

theorem rel_elementValue :
    Except.Rel (Fault.SamePlace name other) Eq (elementValue name fields)
      (elementValue other fields) := by
  unfold elementValue
  cases fieldValue? "items" fields with
  | none => exact .error (.within _)
  | some value =>
    dsimp only
    split
    · exact .error (.within _)
    · exact .ok rfl

theorem rel_propertyEntries :
    Except.Rel (Fault.SamePlace name other) Eq (propertyEntries name fields)
      (propertyEntries other fields) := by
  unfold propertyEntries
  cases fieldValue? "properties" fields with
  | none => exact .error (.within _)
  | some value =>
    dsimp only
    cases value.fields? with
    | none => exact .error (.within _)
    | some entries =>
      cases entries with
      | nil => exact .error (.within _)
      | cons entry rest => exact .ok rfl

end Fields

/-! ## Values that hold types -/

section Types

variable {owner owner' : String}

/-- A value gives types that correspond, in two types that hold it, if the body that it reads as
does. -/
theorem rel_ofTree {E : Fault → Fault → Prop} {S : TypeExpr → TypeExpr → Prop}
    {name name' label label' : String} {value : Tree}
    (hnamed : ∀ target, S (.named target) (.named target))
    (hneither : E ((Cause.notAType label value.describe).within owner)
      ((Cause.notAType label' value.describe).within owner'))
    (hbody : ∀ fields, value.fields? = some fields →
      Except.Rel E (fun d e => S d.toInline e.toInline)
        (Definition.ofFields name fields).outcome (Definition.ofFields name' fields).outcome) :
    Except.Rel E S (TypeExpr.ofTree owner label name value).outcome
      (TypeExpr.ofTree owner' label' name' value).outcome := by
  cases hreference : value.reference? with
  | some target =>
    rw [TypeExpr.ofTree_of_reference hreference, TypeExpr.ofTree_of_reference hreference]
    exact .ok (hnamed target)
  | none =>
    cases hfields : value.fields? with
    | none =>
      rw [TypeExpr.ofTree_of_neither hreference hfields,
        TypeExpr.ofTree_of_neither hreference hfields]
      exact .error hneither
    | some fields =>
      rw [TypeExpr.ofTree_of_fields hreference hfields,
        TypeExpr.ofTree_of_fields hreference hfields]
      exact Traced.outcome_bind_rel (hbody fields hfields) fun _ _ h => .ok h

/-- Properties do not depend on the name of the type that has them. -/
theorem rel_readProperties (entries : Fields) :
    Except.Rel (Fault.SamePlace owner owner') Eq (readProperties owner entries).outcome
      (readProperties owner' entries).outcome := by
  induction entries with
  | nil =>
    rw [readProperties_nil, readProperties_nil]
    exact .ok rfl
  | cons entry rest ih =>
    rw [readProperties_cons, readProperties_cons]
    cases entry.1.text? with
    | none => exact .error (.within _)
    | some property =>
      have hvalue : Except.Rel (Fault.SamePlace owner owner') Eq
          (TypeExpr.ofTree owner (propertyLabel property) property entry.2).outcome
          (TypeExpr.ofTree owner' (propertyLabel property) property entry.2).outcome := by
        refine rel_ofTree (fun target => rfl) (.within _) fun fields _ => ?_
        cases (Definition.ofFields property fields).outcome with
        | ok d => exact .ok rfl
        | error fault => exact .error (.refl fault)
      refine Traced.outcome_bind_rel hvalue fun type _ heq => heq ▸ ?_
      exact Traced.outcome_bind_rel ih fun others _ heq => heq ▸ .ok rfl

end Types

/-! ## Bodies -/

/-- Under two names a body gives one definition, each time with the name, or has one fault. -/
def ReadsUnder (name other : String) (fields : Fields) : Prop :=
  Except.Rel (Fault.SamePlace name other) (fun d e => e = d.under other)
    (Definition.ofFields name fields).outcome (Definition.ofFields other fields).outcome

/-- The name of an array goes on to the body of its elements, and that of an object no further. -/
theorem rel_ofFieldsAs_under {name other : String} {fields : Fields}
    (hitems : ∀ value inner, fieldValue? "items" fields = some value →
      value.fields? = some inner → ReadsUnder (itemsName name) (itemsName other) inner)
    (kind : Kind) :
    Except.Rel (Fault.SamePlace name other) (fun d e => e = d.under other)
      (Definition.ofFieldsAs kind name fields).outcome
      (Definition.ofFieldsAs kind other fields).outcome := by
  have hheader := rel_header name other fields
  cases kind with
  | int =>
    rw [Definition.ofFieldsAs_int, Definition.ofFieldsAs_int]
    refine Traced.outcome_bind_rel (hheader _) fun header _ heq => heq ▸ ?_
    refine Traced.outcome_bind_rel (rel_wordField name other fields IntFormat "format") ?_
    exact fun format _ heq => heq ▸ .ok rfl
  | number =>
    rw [Definition.ofFieldsAs_number, Definition.ofFieldsAs_number]
    refine Traced.outcome_bind_rel (hheader _) fun header _ heq => heq ▸ ?_
    refine Traced.outcome_bind_rel (rel_wordField name other fields NumberFormat "format") ?_
    exact fun format _ heq => heq ▸ .ok rfl
  | bool =>
    rw [Definition.ofFieldsAs_bool, Definition.ofFieldsAs_bool]
    exact Traced.outcome_bind_rel (hheader _) fun header _ heq => heq ▸ .ok rfl
  | string =>
    rw [Definition.ofFieldsAs_string, Definition.ofFieldsAs_string]
    refine Traced.outcome_bind_rel (hheader _) fun header _ heq => heq ▸ ?_
    refine Traced.outcome_bind_rel (rel_enumField name other fields) ?_
    exact fun values _ heq => heq ▸ .ok rfl
  | array =>
    rw [Definition.ofFieldsAs_array, Definition.ofFieldsAs_array]
    refine Traced.outcome_bind_rel (hheader _) fun header _ heq => heq ▸ ?_
    refine Traced.outcome_bind_rel (rel_elementValue name other fields).with_left ?_
    rintro value _ ⟨hvalue, rfl⟩
    have hfield := (elementValue_eq_ok hvalue).1
    have helement : Except.Rel (Fault.SamePlace name other)
        (fun type type' => type' = type.under (itemsName other))
        (TypeExpr.ofTree name "items" (itemsName name) value).outcome
        (TypeExpr.ofTree other "items" (itemsName other) value).outcome := by
      refine rel_ofTree (fun target => rfl) (.within _) fun inner hinner => ?_
      refine (hitems value inner hfield hinner).imp (fun _ _ => .of_items) fun d _ heq => ?_
      rw [heq]
      rfl
    refine Traced.outcome_bind_rel helement fun element _ heq => heq ▸ ?_
    refine Traced.outcome_bind_rel (rel_wordField name other fields Container "array_type") ?_
    exact fun container _ heq => heq ▸ .ok rfl
  | object =>
    rw [Definition.ofFieldsAs_object, Definition.ofFieldsAs_object]
    refine Traced.outcome_bind_rel (hheader _) fun header _ heq => heq ▸ ?_
    refine Traced.outcome_bind_rel (rel_propertyEntries name other fields) ?_
    refine fun entries _ heq => heq ▸ ?_
    refine Traced.outcome_bind_rel (rel_readProperties entries) fun stated _ heq => heq ▸ ?_
    refine Traced.outcome_bind_rel (rel_requiredField name other fields _) ?_
    exact fun required _ heq => heq ▸ .ok rfl

theorem readsUnder_all :
    (∀ fields name other, ReadsUnder name other fields) ∧
      ∀ value inner, Tree.fields? value = some inner → ∀ name other,
        ReadsUnder name other inner := by
  apply body_induction
  case body =>
    intro fields hitems _ name other
    refine Traced.outcome_bind_rel (rel_kind name other fields) fun kind _ heq => heq ▸ ?_
    refine rel_ofFieldsAs_under (fun value inner hvalue hinner => ?_) kind
    exact hitems value hvalue inner hinner _ _
  case held =>
    intro value hbody inner hinner
    exact hbody inner hinner

/-- What is read from a body under another name is the definition with that name. -/
theorem Definition.ofFields_under {name : String} {fields : Fields} {d : Definition}
    (h : (Definition.ofFields name fields).outcome = .ok d) (other : String) :
    (Definition.ofFields other fields).outcome = .ok (d.under other) := by
  obtain ⟨_, hother, rfl⟩ := (readsUnder_all.1 fields name other).exists_of_eq_ok h
  exact hother

/-! ## The spine of arrays -/

/-- Two definitions that differ only in names on the spine: in their own, and where both are arrays
that write their elements in place, in those of the elements, and so on. So many arrays down, one is
called after `name` and the other after `other`. What the last type on the spine holds is the
same. -/
inductive OnSpine (name other : String) : Nat → Definition → Definition → Prop
  | array {depth : Nat} {description : Option String} {container : Container} {d e : Definition}
    (h : OnSpine name other (depth + 1) d e) :
    OnSpine name other depth ⟨⟨elementName name depth, description⟩, .array container d.toInline⟩
      ⟨⟨elementName other depth, description⟩, .array container e.toInline⟩
  | last {depth : Nat} {description : Option String} {shape : Shape}
    (h : ∀ container (d : Definition), shape ≠ .array container d.toInline) :
    OnSpine name other depth ⟨⟨elementName name depth, description⟩, shape⟩
      ⟨⟨elementName other depth, description⟩, shape⟩

theorem onSpine_of_under (name other : String) :
    (∀ shape depth description, OnSpine name other depth
      (Definition.under (elementName name depth) ⟨⟨name, description⟩, shape⟩)
      (Definition.under (elementName other depth) ⟨⟨name, description⟩, shape⟩)) ∧
    ∀ type header shape, type = TypeExpr.inline header shape → ∀ depth description,
      OnSpine name other depth
        (Definition.under (elementName name depth) ⟨⟨name, description⟩, shape⟩)
        (Definition.under (elementName other depth) ⟨⟨name, description⟩, shape⟩) := by
  apply type_induction
  case shape =>
    intro shape ih depth description
    cases shape with
    | array container element =>
      cases element with
      | named target => exact .last nofun
      | inline header inner =>
        have hinner := ih _ (List.mem_singleton_self _) header inner rfl (depth + 1)
          header.description
        rw [elementName_succ, elementName_succ] at hinner
        exact .array hinner
    | _ => exact .last nofun
  case named =>
    intro target header shape heq
    cases heq
  case inline =>
    intro header shape ih _ _ heq
    cases heq
    exact ih

/-- Under two names a body is read, or it is not. If it is, the two definitions differ only in the
names on the spine. If not, the two faults have one cause, and the types that they are found in are
of one name, or elements so many arrays deep in what the two names stand for. -/
theorem Definition.ofFields_two_names (name other : String) (fields : Fields) :
    (∃ d e, (Definition.ofFields name fields).outcome = .ok d ∧
      (Definition.ofFields other fields).outcome = .ok e ∧ OnSpine name other 0 d e) ∨
    ∃ fault fault', (Definition.ofFields name fields).outcome = .error fault ∧
      (Definition.ofFields other fields).outcome = .error fault' ∧
      fault.SamePlace name other fault' := by
  cases hname : (Definition.ofFields name fields).outcome with
  | ok d =>
    have hother := Definition.ofFields_under hname other
    -- The name that the definition has is the one it was read under.
    have hself : d.under name = d := Except.ok.inj ((ofFields_under hname name).symm.trans hname)
    have hspine := (onSpine_of_under name other).1 d.shape 0 d.description
    rw [elementName_zero, elementName_zero] at hspine
    change OnSpine name other 0 (d.under name) (d.under other) at hspine
    rw [hself] at hspine
    exact .inl ⟨d, d.under other, rfl, hother, hspine⟩
  | error fault =>
    obtain ⟨fault', hother, hplace⟩ := (readsUnder_all.1 fields name other).exists_of_eq_error hname
    exact .inr ⟨fault, fault', rfl, hother, hplace⟩

end TypeTable
