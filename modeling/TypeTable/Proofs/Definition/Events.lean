import TypeTable.Proofs.Definition.Children
import TypeTable.Proofs.Definition.Distinct

/-!
# What reading a definition reports

`Shape.events` lists what is reported about a type by what the type holds: about each child in
order, first what is reported about the type written in place and then the child itself.
`Definition.events_ofFields` says that reading a body reports this and nothing else, if no property
is stated twice. Whatever becomes of a body, only references and types written in place are reported
(`Definition.isHolding_of_mem_events`).
-/

namespace TypeTable

open Log (Event)

/-! ## Events by types -/

mutual

/-- What is reported about the children of a type called `holder`. -/
def Shape.events (holder : String) : Shape → List Event
  | .array _ element => element.events holder "items"
  | .object properties _ => propertyEvents holder properties
  | _ => []
termination_by structural shape => shape

/-- What is reported about a type expression that a type called `holder` has under a label. -/
def TypeExpr.events (holder label : String) : TypeExpr → List Event
  | .named target => [.refers holder label target]
  | .inline header shape =>
    shape.events header.name ++ [.holds holder label shape.kind header.name]
termination_by structural type => type

/-- What is reported about the properties of a type called `holder`. -/
def propertyEvents (holder : String) : List (String × TypeExpr) → List Event
  | [] => []
  | (name, type) :: rest => type.events holder (propertyLabel name) ++ propertyEvents holder rest
termination_by structural properties => properties

end

/-- What is reported about a definition of a document. -/
def Definition.events (d : Definition) : List Event :=
  d.shape.events d.name ++ [.defined d.kind d.name]

/-- An event about a type expression that a type holds. -/
def Log.Event.IsHolding (event : Event) : Prop :=
  event.level = .trace ∧ event.target = "typegen_schema::item_ref"

theorem Log.Event.IsHolding.level_ne_info {event : Event} (h : event.IsHolding) :
    event.level ≠ .info := by
  rw [h.1]
  exact Log.Level.noConfusion

theorem mem_propertyEvents {holder : String} {properties : List (String × TypeExpr)}
    {event : Event} (h : event ∈ propertyEvents holder properties) :
    ∃ property ∈ properties, event ∈ property.2.events holder (propertyLabel property.1) := by
  induction properties with
  | nil => cases h
  | cons first rest ih =>
    rcases List.mem_append.mp h with hfirst | hrest
    · exact ⟨first, List.mem_cons_self .., hfirst⟩
    · obtain ⟨property, hproperty, hevent⟩ := ih hrest
      exact ⟨property, List.mem_cons_of_mem _ hproperty, hevent⟩

theorem isHolding_of_mem_events :
    (∀ (shape : Shape) holder, ∀ event ∈ shape.events holder, event.IsHolding) ∧
      ∀ (type : TypeExpr) holder label, ∀ event ∈ type.events holder label, event.IsHolding := by
  apply type_induction
  case shape =>
    intro shape ih holder event hevent
    cases shape with
    | array container element =>
      exact ih element (List.mem_singleton_self _) holder "items" event hevent
    | object properties required =>
      obtain ⟨property, hproperty, hevent⟩ := mem_propertyEvents hevent
      exact ih property.2 (List.mem_map_of_mem hproperty) holder _ event hevent
    | _ => cases hevent
  case named =>
    intro target holder label event hevent
    rw [List.mem_singleton.mp hevent]
    exact ⟨rfl, rfl⟩
  case inline =>
    intro header shape ih holder label event hevent
    rcases List.mem_append.mp hevent with hinner | hlast
    · exact ih header.name event hinner
    · rw [List.mem_singleton.mp hlast]
      exact ⟨rfl, rfl⟩

/-- All that is reported about a shape is about type expressions held in it. -/
theorem Shape.isHolding_of_mem_events {shape : Shape} {holder : String} {event : Event}
    (h : event ∈ shape.events holder) : event.IsHolding :=
  TypeTable.isHolding_of_mem_events.1 shape holder event h

/-! ## Kinds that hold no types -/

section Leaf

variable {name : String} {fields : Fields} {kind : Kind} {d : Definition}

theorem reports_ofFieldsAs_leaf (sort : Event → Prop) (harray : kind ≠ .array)
    (hobject : kind ≠ .object) : (Definition.ofFieldsAs kind name fields).Reports sort := by
  cases kind with
  | int =>
    rw [Definition.ofFieldsAs_int]
    exact .bind (.lift _) fun _ => .bind (.lift _) fun _ => .pure _
  | number =>
    rw [Definition.ofFieldsAs_number]
    exact .bind (.lift _) fun _ => .bind (.lift _) fun _ => .pure _
  | bool =>
    rw [Definition.ofFieldsAs_bool]
    exact .bind (.lift _) fun _ => .pure _
  | string =>
    rw [Definition.ofFieldsAs_string]
    exact .bind (.lift _) fun _ => .bind (.lift _) fun _ => .pure _
  | array => exact absurd rfl harray
  | object => exact absurd rfl hobject

/-- Nothing is reported about a body of such a kind. -/
theorem events_ofFieldsAs_leaf (harray : kind ≠ .array) (hobject : kind ≠ .object)
    (h : (Definition.ofFieldsAs kind name fields).outcome = .ok d) :
    (Definition.ofFieldsAs kind name fields).events = d.shape.events name := by
  have hread : (Definition.ofFieldsAs kind name fields).events = [] :=
    List.eq_nil_iff_forall_not_mem.mpr (reports_ofFieldsAs_leaf (fun _ => False) harray hobject)
  obtain ⟨header, shape⟩ := d
  obtain ⟨hkind, -, -⟩ := Definition.ofFieldsAs_eq_ok_iff.mp h
  rw [hread]
  cases shape with
  | array => exact absurd hkind.symm harray
  | object => exact absurd hkind.symm hobject
  | _ => rfl

end Leaf

/-! ## A body that is read -/

section Read

variable {owner name : String} {fields entries : Fields} {kind : Kind} {d : Definition}

theorem events_readProperties {stated : List (String × TypeExpr)}
    (hvalues : ∀ entry ∈ entries, ∀ label name type, entry.1.text? = some name →
      (TypeExpr.ofTree owner label name entry.2).outcome = .ok type →
        (TypeExpr.ofTree owner label name entry.2).events = type.events owner label)
    (h : (readProperties owner entries).outcome = .ok stated) :
    (readProperties owner entries).events = propertyEvents owner stated := by
  induction entries generalizing stated with
  | nil =>
    rw [readProperties_nil] at h ⊢
    cases h
    rfl
  | cons entry rest ih =>
    obtain ⟨hfirst, hrest⟩ := List.forall_mem_cons.mp hvalues
    rw [readProperties_cons] at h ⊢
    cases hkey : entry.1.text? with
    | none =>
      rw [hkey] at h
      cases h
    | some property =>
      rw [hkey] at h
      obtain ⟨type, htype, h⟩ := Traced.outcome_bind_eq_ok_iff.mp h
      obtain ⟨others, hothers, h⟩ := Traced.outcome_bind_eq_ok_iff.mp h
      cases h
      rw [Traced.events_bind_of_ok htype, Traced.events_bind_of_ok hothers, ih hrest hothers,
        hfirst _ _ _ hkey htype, Traced.events_pure, List.append_nil, propertyEvents]

/-- A body is read with the events of its shape, if the values that hold types are. -/
theorem events_ofFieldsAs
    (hitems : ∀ value, fieldValue? "items" fields = some value → kind = .array →
      ∀ type, (TypeExpr.ofTree name "items" (itemsName name) value).outcome = .ok type →
        (TypeExpr.ofTree name "items" (itemsName name) value).events = type.events name "items")
    (hproperties : ∀ value entries stated, fieldValue? "properties" fields = some value →
      value.fields? = some entries → kind = .object →
        (readProperties name entries).outcome = .ok stated →
          (readProperties name entries).events = propertyEvents name (collectProperties stated))
    (h : (Definition.ofFieldsAs kind name fields).outcome = .ok d) :
    (Definition.ofFieldsAs kind name fields).events = d.shape.events name := by
  cases kind with
  | array =>
    simp only [Definition.ofFieldsAs_array, Traced.outcome_bind_eq_ok_iff, Traced.outcome_lift,
      Traced.outcome_pure] at h
    obtain ⟨header, hheader, value, hvalue, element, helement, container, hcontainer, heq⟩ := h
    cases heq
    have hevents := hitems value (elementValue_eq_ok hvalue).1 rfl element helement
    rw [Definition.ofFieldsAs_array, Traced.events_bind_of_ok hheader,
      Traced.events_bind_of_ok hvalue, Traced.events_bind_of_ok helement,
      Traced.events_bind_of_ok hcontainer, hevents]
    exact List.append_nil _
  | object =>
    simp only [Definition.ofFieldsAs_object, Traced.outcome_bind_eq_ok_iff, Traced.outcome_lift,
      Traced.outcome_pure] at h
    obtain ⟨header, hheader, entries, hentries, stated, hstated, required, hrequired, heq⟩ := h
    cases heq
    obtain ⟨value, hvalue, hfields⟩ := propertyEntries_eq_ok hentries
    have hevents := hproperties value entries stated hvalue hfields rfl hstated
    rw [Definition.ofFieldsAs_object, Traced.events_bind_of_ok hheader,
      Traced.events_bind_of_ok hentries, Traced.events_bind_of_ok hstated,
      Traced.events_bind_of_ok hrequired, hevents]
    exact List.append_nil _
  | _ => exact events_ofFieldsAs_leaf (by decide) (by decide) h

end Read

theorem events_of_reads :
    (∀ fields, DistinctProperties fields → ∀ name d,
      (Definition.ofFields name fields).outcome = .ok d →
        (Definition.ofFields name fields).events = d.shape.events name) ∧
      ∀ value : Tree, (∀ fields, value.fields? = some fields → DistinctProperties fields) →
        ∀ owner label name type, (TypeExpr.ofTree owner label name value).outcome = .ok type →
          (TypeExpr.ofTree owner label name value).events = type.events owner label := by
  apply body_induction
  case body =>
    intro fields hitems hproperties hdistinct name d h
    obtain ⟨kind, hkind, hread⟩ := Traced.outcome_bind_eq_ok_iff.mp h
    have hstates : StatesKind kind fields := Kind.ofFields_eq_ok_iff.mp hkind
    rw [Definition.ofFields, Traced.events_bind_of_ok hkind]
    refine events_ofFieldsAs (fun value hvalue harray type htype => ?_)
      (fun value entries stated hvalue hentries hobject hstated => ?_) hread
    · subst harray
      exact hitems value hvalue (fun inner hinner => hdistinct.items hstates hvalue hinner)
        name "items" (itemsName name) type htype
    · subst hobject
      rw [hdistinct.collectProperties_eq hvalue hentries (readProperties_eq_ok_iff.mp hstated)]
      refine events_readProperties (fun entry hentry label property type hname htype => ?_) hstated
      exact hproperties value entries hvalue hentries entry hentry
        (fun inner hinner => hdistinct.property hstates hvalue hentries hentry hname hinner)
        name label property type htype
  case held =>
    intro value hbody hdistinct owner label name type h
    cases hreference : value.reference? with
    | some target =>
      rw [TypeExpr.ofTree_of_reference hreference] at h ⊢
      cases h
      rfl
    | none =>
      cases hfields : value.fields? with
      | none =>
        rw [TypeExpr.ofTree_of_neither hreference hfields] at h
        cases h
      | some fields =>
        rw [TypeExpr.ofTree_of_fields hreference hfields] at h ⊢
        obtain ⟨d, hd, h⟩ := Traced.outcome_bind_eq_ok_iff.mp h
        cases h
        rw [Traced.events_bind_of_ok hd, hbody fields hfields (hdistinct fields hfields) name d hd,
          Definition.toInline, TypeExpr.events, Definition.name_of_ofFields hd]
        rfl

/-- A body that states no property twice is read with the events of the definition's shape. -/
theorem Definition.events_ofFields {name : String} {fields : Fields} {d : Definition}
    (hdistinct : DistinctProperties fields)
    (h : (Definition.ofFields name fields).outcome = .ok d) :
    (Definition.ofFields name fields).events = d.shape.events name :=
  events_of_reads.1 fields hdistinct name d h

/-! ## Any body -/

theorem reports_readProperties (owner : String) {entries : Fields}
    (h : ∀ entry ∈ entries, ∀ owner label name,
      (TypeExpr.ofTree owner label name entry.2).Reports Event.IsHolding) :
    (readProperties owner entries).Reports Event.IsHolding := by
  induction entries with
  | nil =>
    rw [readProperties_nil]
    exact .pure _
  | cons entry rest ih =>
    obtain ⟨hfirst, hrest⟩ := List.forall_mem_cons.mp h
    rw [readProperties_cons]
    split
    · exact .lift _
    · exact (hfirst _ _ _).bind fun _ => (ih hrest).bind fun _ => .pure _

theorem reports_reads :
    (∀ fields name, (Definition.ofFields name fields).Reports Event.IsHolding) ∧
      ∀ value owner label name,
        (TypeExpr.ofTree owner label name value).Reports Event.IsHolding := by
  apply body_induction
  case body =>
    intro fields hitems hproperties name
    refine .bind (.lift _) fun kind => ?_
    cases kind with
    | array =>
      rw [Definition.ofFieldsAs_array]
      refine .bind (.lift _) fun header => ?_
      cases hvalue : elementValue name fields with
      | error fault => exact .lift (.error fault)
      | ok value =>
        have helement := hitems value (elementValue_eq_ok hvalue).1
        exact (helement _ _ _).bind fun _ => .bind (.lift _) fun _ => .pure _
    | object =>
      rw [Definition.ofFieldsAs_object]
      refine .bind (.lift _) fun header => ?_
      cases hentries : propertyEntries name fields with
      | error fault => exact .lift (.error fault)
      | ok entries =>
        obtain ⟨value, hvalue, hfields⟩ := propertyEntries_eq_ok hentries
        have hread := reports_readProperties name (hproperties value entries hvalue hfields)
        exact hread.bind fun _ => .bind (.lift _) fun _ => .pure _
    | _ => exact reports_ofFieldsAs_leaf _ (by decide) (by decide)
  case held =>
    intro value hbody owner label name
    cases hreference : value.reference? with
    | some target =>
      rw [TypeExpr.ofTree_of_reference hreference]
      intro event hevent
      rw [List.mem_singleton.mp hevent]
      exact ⟨rfl, rfl⟩
    | none =>
      cases hfields : value.fields? with
      | none =>
        rw [TypeExpr.ofTree_of_neither hreference hfields]
        exact .lift _
      | some fields =>
        rw [TypeExpr.ofTree_of_fields hreference hfields]
        exact (hbody fields hfields name).bind fun _ => .bind (.report ⟨rfl, rfl⟩) fun _ => .pure _

/-- Whatever becomes of a body, all that is reported is about type expressions held in it. -/
theorem Definition.isHolding_of_mem_events {name : String} {fields : Fields} {event : Event}
    (h : event ∈ (Definition.ofFields name fields).events) : event.IsHolding :=
  reports_reads.1 fields name event h

end TypeTable
