import TypeTable.Proofs.Definition.Naming
import TypeTable.Proofs.Tree.Change
import TypeTable.Proofs.Tree.Keys

/-!
# Names of properties

What the properties of an object are called is its author's choice. When their names are changed
one to one, in the keys under `properties` and in the list under `required`, the body is read if it
was read before, whatever the new names are. `Definition.ofFieldsAs_renameBody` says what is
read then: each property has its new name and the place it had, a type written in place in it is
read from the same body under that name, and the required names are the old ones, renamed.
-/

namespace TypeTable

/-! ## Renamed bodies -/

/-- An entry with another name in its key. -/
def renameKey (f : String → String) (entry : Tree × Tree) : Tree × Tree :=
  (entry.1.mapText f, entry.2)

/-- What becomes of the value of a field. -/
def renameUnder (f : String → String) (key value : Tree) : Tree :=
  if key.isText "properties" then value.overFields (List.map (renameKey f))
  else if key.isText "required" then value.overItems (List.map (Tree.mapText f))
  else value

/-- The body of an object with its properties renamed, where they are stated and where they are
required. The bodies inside it stay as they are. -/
def renameBody (f : String → String) (fields : Fields) : Fields :=
  fields.map fun entry => (entry.1, renameUnder f entry.1 entry.2)

section Bodies

variable (f : String → String) (name : String) (fields : Fields)

theorem fieldValue?_properties_renameBody :
    fieldValue? "properties" (renameBody f fields) =
      (fieldValue? "properties" fields).map (Tree.overFields (List.map (renameKey f))) :=
  fieldValue?_map (renameUnder f) "properties" fields

theorem fieldValue?_required_renameBody :
    fieldValue? "required" (renameBody f fields) =
      (fieldValue? "required" fields).map (Tree.overItems (List.map (Tree.mapText f))) :=
  fieldValue?_map (renameUnder f) "required" fields

theorem fieldValue?_description_renameBody :
    fieldValue? "description" (renameBody f fields) = fieldValue? "description" fields :=
  (fieldValue?_map (renameUnder f) "description" fields).trans (congrFun Option.map_id_fun _)

theorem Header.ofFields_renameBody (own : List String) :
    Header.ofFields name own (renameBody f fields) = Header.ofFields name own fields := by
  rw [Header.ofFields_eq, fieldValue?_description_renameBody, renameBody,
    find?_key_map (renameUnder f) fun key => !isFieldKey own key, ← Header.ofFields_eq]

theorem propertyEntries_renameBody :
    propertyEntries name (renameBody f fields) =
      (propertyEntries name fields).map (List.map (renameKey f)) :=
  propertyEntries_map (fieldValue?_properties_renameBody f fields)
    (Tree.fields?_overFields _) fun _ => List.map_eq_nil_iff

end Bodies

/-! ## Renamed properties -/

/-- A property under its new name. What is written in place in it is named after it. -/
def renameProperty (f : String → String) (property : String × TypeExpr) : String × TypeExpr :=
  (f property.1, property.2.under (f property.1))

/-- An object with its properties renamed. -/
def Definition.renameProperties (f : String → String) (d : Definition) : Definition :=
  match d.shape with
  | .object properties required =>
    ⟨d.toHeader, .object (properties.map (renameProperty f)) (required.map f)⟩
  | _ => d

/-- Properties are read under any names. If one is not read, it is not read under another name. -/
theorem rel_readProperties_rename (f : String → String) (owner : String) (entries : Fields) :
    Except.Rel (fun _ _ => True) (fun stated stated' => stated' = stated.map (renameProperty f))
      (readProperties owner entries).outcome
      (readProperties owner (entries.map (renameKey f))).outcome := by
  induction entries with
  | nil =>
    rw [List.map_nil, readProperties_nil]
    exact .ok rfl
  | cons entry rest ih =>
    rw [List.map_cons, readProperties_cons, readProperties_cons, renameKey, Tree.text?_mapText]
    cases entry.1.text? with
    | none => exact .error trivial
    | some property =>
      have hvalue : Except.Rel (fun _ _ => True)
          (fun type type' => type' = type.under (f property))
          (TypeExpr.ofTree owner (propertyLabel property) property entry.2).outcome
          (TypeExpr.ofTree owner (propertyLabel (f property)) (f property) entry.2).outcome := by
        refine rel_ofTree (fun target => rfl) trivial fun fields _ => ?_
        refine (readsUnder_all.1 fields property (f property)).imp (fun _ _ _ => trivial) ?_
        rintro d _ rfl
        rfl
      refine Traced.outcome_bind_rel hvalue fun type _ heq => heq ▸ ?_
      exact Traced.outcome_bind_rel ih fun others _ heq => heq ▸ .ok rfl

section Injective

variable {f : String → String} (hf : Function.Injective f)

include hf

theorem contains_map (names : List String) (name : String) :
    (names.map f).contains (f name) = names.contains name := by
  rw [Bool.eq_iff_iff, List.contains_iff_mem, List.contains_iff_mem, List.mem_map_of_injective hf]

/-- A renamed list of names is read if the list is. Names are compared with each other and with the
declared ones, and these are told apart as before. -/
theorem rel_requiredNames_rename (name : String) (declared seen : List String)
    (items : List Tree) :
    Except.Rel (fun _ _ => True) (fun required required' => required' = required.map f)
      (requiredNames name declared seen items)
      (requiredNames name (declared.map f) (seen.map f) (items.map (Tree.mapText f))) := by
  induction items generalizing seen with
  | nil => exact .ok rfl
  | cons item rest ih =>
    rw [List.map_cons, requiredNames, requiredNames, Tree.text?_mapText]
    cases item.text? with
    | none => exact .error trivial
    | some property =>
      have hseen : (if (seen.map f).contains (f property) then seen.map f
          else seen.map f ++ [f property]) =
          (if seen.contains property then seen else seen ++ [property]).map f := by
        rw [contains_map hf]
        split
        · rfl
        · rw [List.map_append, List.map_singleton]
      simp only [Option.map_some, contains_map hf declared, hseen]
      split
      · exact ih _
      · exact .error trivial

theorem rel_requiredField_rename (name : String) (declared : List String) (fields : Fields) :
    Except.Rel (fun _ _ => True) (fun required required' => required' = required.map f)
      (requiredField name declared fields)
      (requiredField name (declared.map f) (renameBody f fields)) := by
  unfold requiredField
  rw [fieldValue?_required_renameBody]
  cases fieldValue? "required" fields with
  | none => exact .ok rfl
  | some value =>
    simp only [Option.map_some, Tree.isVoid_overItems_map, Tree.items?_overItems]
    split
    · exact .ok rfl
    · cases value.items? with
      | none => exact .error trivial
      | some items => exact rel_requiredNames_rename hf name declared [] items

theorem rel_ofFieldsAs_renameBody (name : String) (fields : Fields) :
    Except.Rel (fun _ _ => True) (fun d e => e = d.renameProperties f)
      (Definition.ofFieldsAs .object name fields).outcome
      (Definition.ofFieldsAs .object name (renameBody f fields)).outcome := by
  rw [Definition.ofFieldsAs_object, Definition.ofFieldsAs_object,
    Header.ofFields_renameBody, propertyEntries_renameBody]
  cases Header.ofFields name (Kind.ownFields .object) fields with
  | error fault => exact .error trivial
  | ok header =>
    cases propertyEntries name fields with
    | error fault => exact .error trivial
    | ok entries =>
      simp only [Except.map, Traced.lift_ok, pure_bind]
      refine Traced.outcome_bind_rel (rel_readProperties_rename f name entries) ?_
      rintro stated _ rfl
      have hcollect : collectProperties (stated.map (renameProperty f)) =
          (collectProperties stated).map (renameProperty f) :=
        collectProperties_map hf (fun _ => rfl) stated
      have hnames : ((collectProperties stated).map (renameProperty f)).map (·.1) =
          ((collectProperties stated).map (·.1)).map f := by
        rw [List.map_map, List.map_map]
        rfl
      rw [hcollect, hnames]
      refine Traced.outcome_bind_rel (rel_requiredField_rename hf name _ fields) ?_
      rintro required _ rfl
      exact .ok rfl

end Injective

/-! ## What a renamed object is -/

/-- A property and the one that it becomes. It has its new name. It refers to what it referred to,
or it is read from the same body under that name: from the one that was stated last under the old
name. -/
inductive RenamedProperty (f : String → String) (entries : Fields) :
    String × TypeExpr → String × TypeExpr → Prop
  | named {name target : String} :
    RenamedProperty f entries (name, .named target) (f name, .named target)
  | inline {name : String} {value : Tree} {fields : Fields} {d e : Definition}
    (hvalue : lastStated? name entries = some value) (hfields : value.fields? = some fields)
    (hold : (Definition.ofFields name fields).outcome = .ok d)
    (hnew : (Definition.ofFields (f name) fields).outcome = .ok e) :
    RenamedProperty f entries (name, d.toInline) (f name, e.toInline)

theorem names_of_renamedProperties {f : String → String} {entries : Fields}
    {properties properties' : List (String × TypeExpr)}
    (h : List.Forall₂ (RenamedProperty f entries) properties properties') :
    properties'.map (·.1) = (properties.map (·.1)).map f := by
  induction h with
  | nil => rfl
  | cons hfirst _ ih =>
    rw [List.map_cons, ih]
    cases hfirst <;> rfl

theorem renamedProperty_renameProperty (f : String → String) {entries : Fields}
    {stated : List (String × TypeExpr)} (h : List.Forall₂ ReadsProperty entries stated)
    {property : String × TypeExpr} (hproperty : property ∈ collectProperties stated) :
    RenamedProperty f entries property (renameProperty f property) := by
  obtain ⟨name, type⟩ := property
  have hnodup : ((collectProperties stated).map (·.1)).Nodup := by
    rw [keys_collectProperties]
    exact nodup_addNew _ List.nodup_nil
  have hlookup : (collectProperties stated).lookup name = some type :=
    lookup_of_mem hnodup hproperty
  obtain ⟨value, hvalue, htype⟩ := (rel_lookup_collectProperties h name).exists_of_eq_some hlookup
  cases htype with
  | named _ => exact .named
  | inline hfields hread =>
    exact .inline hvalue hfields hread (Definition.ofFields_under hread (f name))

/-- An object with its properties renamed one to one is read exactly if the object is. The
properties are those of the object in the same order, renamed, and so are the required ones. -/
theorem Definition.ofFieldsAs_renameBody {f : String → String} (hf : Function.Injective f)
    (name : String) (fields : Fields) :
    ((∃ d, (Definition.ofFieldsAs .object name fields).outcome = .ok d) ↔
      ∃ e, (Definition.ofFieldsAs .object name (renameBody f fields)).outcome =
        .ok e) ∧
    ∀ d e, (Definition.ofFieldsAs .object name fields).outcome = .ok d →
      (Definition.ofFieldsAs .object name (renameBody f fields)).outcome = .ok e →
      e.toHeader = d.toHeader ∧
      (∃ value entries properties properties' required,
        fieldValue? "properties" fields = some value ∧ value.fields? = some entries ∧
        d.shape = .object properties required ∧ e.shape = .object properties' (required.map f) ∧
        List.Forall₂ (RenamedProperty f entries) properties properties') ∧
      ∀ property, e.requires? (f property) = d.requires? property := by
  have hrel := rel_ofFieldsAs_renameBody hf name fields
  refine ⟨hrel.exists_ok_iff, fun d e hd he => ?_⟩
  obtain ⟨e', he', rfl⟩ := hrel.exists_of_eq_ok hd
  cases he.symm.trans he'
  obtain ⟨hkind, -, hshape⟩ := ofFieldsAs_eq_ok_iff.mp hd
  obtain ⟨header, shape⟩ := d
  cases hshape with
  | @object entries stated required hentries hstated hrequired =>
    obtain ⟨value, hvalue, hfields, -⟩ := propertyEntries_eq_ok_iff.mp hentries
    refine ⟨rfl, ⟨value, entries, _, _, required, hvalue, hfields, rfl, rfl, ?_⟩, ?_⟩
    · rw [List.forall₂_map_right_iff, List.forall₂_same]
      exact fun property => renamedProperty_renameProperty f hstated
    · exact fun property => congrArg some (contains_map hf required property)
  | _ => cases hkind

/-- A name that changes places with a word that means something elsewhere in a body. -/
def swapName (name : String) : String :=
  if name = "id" then "type" else if name = "type" then "id" else name

theorem swapName_injective : Function.Injective swapName := by
  have hinvolutive : Function.Involutive swapName := by
    intro name
    unfold swapName
    by_cases hid : name = "id"
    · rw [if_pos hid, hid]
      rfl
    · rw [if_neg hid]
      by_cases htype : name = "type"
      · rw [if_pos htype, htype]
        rfl
      · rw [if_neg htype, if_neg hid, if_neg htype]
  exact hinvolutive.injective

/-- An object that requires both of its properties. The key of the first carries a tag. -/
def seatBody : Fields :=
  [(.text "type", .text "object"), (.text "properties",
    .map [(.tagged ⟨"t"⟩ (.text "id"), .map [(.text "type", .text "int")]),
      (.text "row", .text "#Row")]),
    (.text "required", .seq [.text "row", .text "id", .text "row"])]

/-- What is read from it. -/
def seat : Definition :=
  ⟨⟨"Seat", none⟩, .object [("id", .inline ⟨"id", none⟩ (.int .int32)), ("row", .named "Row")]
    ["row", "id"]⟩

theorem ofFieldsAs_seatBody : (Definition.ofFieldsAs .object "Seat" seatBody).outcome = .ok seat := by
  have hint : ReadsType "id" (.map [(.text "type", .text "int")])
      (.inline ⟨"id", none⟩ (.int .int32)) :=
    .inline rfl (Definition.ofFields_eq_ok_iff.mpr ⟨rfl, rfl, .int rfl⟩)
  have hstated : List.Forall₂ ReadsProperty
      [(.tagged ⟨"t"⟩ (.text "id"), .map [(.text "type", .text "int")]),
        (.text "row", .text "#Row")]
      [("id", .inline ⟨"id", none⟩ (.int .int32)), ("row", .named "Row")] :=
    .cons ⟨rfl, hint⟩ (.cons ⟨rfl, .named rfl⟩ .nil)
  exact Definition.ofFieldsAs_eq_ok_iff.mpr ⟨rfl, rfl, .object rfl hstated rfl⟩

/-- A property may be called like the field that states the kind. -/
theorem ofFieldsAs_renameBody_seat :
    Function.Injective swapName ∧
      (Definition.ofFieldsAs .object "Seat" seatBody).outcome = .ok seat ∧
      ∃ e properties, (Definition.ofFieldsAs .object "Seat"
          (renameBody swapName seatBody)).outcome = .ok e ∧
        e.shape = .object properties ["row", "type"] ∧ properties.map (·.1) = ["type", "row"] ∧
        e.requires? "type" = some true ∧ e.requires? "id" = some false := by
  obtain ⟨hread, hrenamed⟩ :=
    Definition.ofFieldsAs_renameBody swapName_injective "Seat" seatBody
  obtain ⟨e, he⟩ := hread.mp ⟨seat, ofFieldsAs_seatBody⟩
  obtain ⟨-, ⟨_, _, _, properties, _, -, -, hshape, hshape', hproperties⟩, hrequires⟩ :=
    hrenamed seat e ofFieldsAs_seatBody he
  cases hshape
  exact ⟨swapName_injective, ofFieldsAs_seatBody, e, properties, he, hshape',
    names_of_renamedProperties hproperties, hrequires "id", hrequires "type"⟩

end TypeTable
