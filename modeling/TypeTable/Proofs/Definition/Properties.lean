import TypeTable.Proofs.Definition.Reading
import TypeTable.Proofs.Tree.Keys

/-!
# The properties of objects

What becomes of the entries under `properties`. Each name that a key reads as is one property, at
the place of the first such key and with the type of the last one: `lookup_collectProperties` and
`rel_lookup_collectProperties` say which type that is. The properties therefore stand for the
entries one by one exactly where no two keys read as one name
(`Definition.properties_of_ofFieldsAs`).

Keys that differ in their tags alone are two keys of a mapping, and read as one name. Where an
object has such keys, a property is lost (`clashingBody_loses_property`).
-/

namespace TypeTable

/-- The value of the last entry whose key reads as a name. -/
def lastStated? (name : String) (entries : Fields) : Option Tree :=
  (entries.reverse.find? fun entry => entry.1.text? == some name).map (·.2)

/-! ## Statements under one name -/

theorem lookup_cons_eq_ite (name : String) (property : String × TypeExpr)
    (rest : List (String × TypeExpr)) :
    (property :: rest).lookup name =
      if name = property.1 then some property.2 else rest.lookup name := by
  rw [List.lookup_cons]
  by_cases h : name = property.1
  · rw [if_pos h, h, beq_self_eq_true]
  · rw [if_neg h, beq_false_of_ne h]

theorem lookup_of_mem {properties : List (String × TypeExpr)} {property : String × TypeExpr}
    (hnodup : (properties.map (·.1)).Nodup) (h : property ∈ properties) :
    properties.lookup property.1 = some property.2 := by
  obtain ⟨before, after, rfl⟩ := List.append_of_mem h
  refine List.lookup_eq_some_iff.mpr ⟨before, after, rfl, fun other hother => ?_⟩
  rw [List.map_append, List.nodup_append] at hnodup
  have hne := hnodup.2.2 other.1 (List.mem_map_of_mem hother) property.1 (List.mem_cons_self ..)
  simpa using hne.symm

theorem lookup_setProperty (name other : String) (type : TypeExpr)
    (properties : List (String × TypeExpr)) :
    (setProperty name type properties).lookup other =
      if other = name then some type else properties.lookup other := by
  induction properties with
  | nil => rw [setProperty, lookup_cons_eq_ite]
  | cons property rest ih =>
    obtain ⟨first, old⟩ := property
    rw [setProperty]
    by_cases hfirst : first = name
    · rw [if_pos hfirst, lookup_cons_eq_ite, lookup_cons_eq_ite, hfirst]
      by_cases h : other = name
      · rw [if_pos h, if_pos h]
      · rw [if_neg h, if_neg h, if_neg h]
    · rw [if_neg hfirst, lookup_cons_eq_ite, lookup_cons_eq_ite, ih]
      by_cases h : other = name
      · rw [if_pos h, if_pos h, h, if_neg (Ne.symm hfirst)]
      · rw [if_neg h, if_neg h]

/-- Statements in order, put behind properties that are there. -/
theorem lookup_foldl_setProperty (name : String) (stated properties : List (String × TypeExpr)) :
    (stated.foldl (fun properties entry => setProperty entry.1 entry.2 properties)
      properties).lookup name = (stated.reverse.lookup name).or (properties.lookup name) := by
  induction stated generalizing properties with
  | nil => rfl
  | cons first rest ih =>
    rw [List.foldl_cons, ih, lookup_setProperty, List.reverse_cons, List.lookup_append,
      lookup_cons_eq_ite, Option.or_assoc]
    by_cases h : name = first.1
    · rw [if_pos h, if_pos h, Option.some_or]
    · rw [if_neg h, if_neg h, List.lookup_nil, Option.none_or]

/-- A property has the type that was stated last under its name. -/
theorem lookup_collectProperties (name : String) (stated : List (String × TypeExpr)) :
    (collectProperties stated).lookup name = stated.reverse.lookup name := by
  rw [collectProperties, lookup_foldl_setProperty, List.lookup_nil, Option.or_none]

/-- The first entry whose key reads as a name states what comes first under that name. -/
theorem rel_lookup_of_readsProperties {entries : Fields} {stated : List (String × TypeExpr)}
    (h : List.Forall₂ ReadsProperty entries stated) (name : String) :
    Option.Rel (ReadsType name)
      ((entries.find? fun entry => entry.1.text? == some name).map (·.2)) (stated.lookup name) := by
  induction h with
  | nil => exact .none
  | @cons entry property _ _ hfirst _ ih =>
    obtain ⟨hkey, htype⟩ := hfirst
    rw [lookup_cons_eq_ite, List.find?_cons, hkey, Option.some_beq_some]
    by_cases hname : name = property.1
    · rw [if_pos hname, hname, beq_self_eq_true]
      exact .some htype
    · rw [if_neg hname, beq_false_of_ne (Ne.symm hname)]
      exact ih

/-- A property is there when the key of an entry reads as its name, and the last such entry states
its type. -/
theorem rel_lookup_collectProperties {entries : Fields} {stated : List (String × TypeExpr)}
    (h : List.Forall₂ ReadsProperty entries stated) (name : String) :
    Option.Rel (ReadsType name) (lastStated? name entries)
      ((collectProperties stated).lookup name) := by
  rw [lookup_collectProperties]
  exact rel_lookup_of_readsProperties (List.forall₂_reverse_iff.mpr h) name

/-- The properties that entries make stand for the entries one by one exactly where the keys read as
different names. -/
theorem readsProperties_collectProperties_iff {entries : Fields}
    {stated : List (String × TypeExpr)} (h : List.Forall₂ ReadsProperty entries stated) :
    List.Forall₂ ReadsProperty entries (collectProperties stated) ↔
      (stated.map (·.1)).Nodup := by
  constructor
  · intro hcollected
    have hnames := (readAs_of_readsProperties h).unique (readAs_of_readsProperties hcollected)
    rw [hnames, keys_collectProperties]
    exact nodup_addNew _ List.nodup_nil
  · intro hnodup
    rwa [collectProperties_of_nodup hnodup]

/-! ## The properties of an object that is read -/

/-- An entry of an object states a property: its key reads as the name, and its value is read as the
type. -/
def StatesProperty (owner : String) (entry : Tree × Tree) (property : String × TypeExpr) : Prop :=
  entry.1.text? = some property.1 ∧
    (TypeExpr.ofTree owner (propertyLabel property.1) property.1 entry.2).outcome = .ok property.2

theorem statesProperty_eq (owner : String) : StatesProperty owner = ReadsProperty := by
  funext entry property
  rw [StatesProperty, TypeExpr.ofTree_eq_ok_iff, ReadsProperty]

/-- What entries make of the properties of an object called `owner`: their keys read as the names,
each name is one property at its first place, and the type under a name is read from the last entry
whose key reads as it. -/
structure Merges (owner : String) (entries : Fields) (names : List String)
    (properties : List (String × TypeExpr)) : Prop where
  keys : Tree.ReadAs (entries.map (·.1)) names
  places : properties.map (·.1) = addNew [] names
  types (name : String) : Option.Rel
    (fun value type => (TypeExpr.ofTree owner (propertyLabel name) name value).outcome = .ok type)
    (lastStated? name entries) (properties.lookup name)

theorem merges_collectProperties (owner : String) {entries : Fields}
    {stated : List (String × TypeExpr)} (h : List.Forall₂ ReadsProperty entries stated) :
    Merges owner entries (stated.map (·.1)) (collectProperties stated) where
  keys := readAs_of_readsProperties h
  places := keys_collectProperties stated
  types name := by
    simp only [TypeExpr.ofTree_eq_ok_iff]
    exact rel_lookup_collectProperties h name

/-- The properties of an object that is read merge its entries by name. They correspond to the
entries one to one exactly where no two keys read as the same name. -/
theorem Definition.properties_of_ofFieldsAs {name : String} {fields : Fields} {d : Definition}
    (h : (Definition.ofFieldsAs .object name fields).outcome = .ok d) :
    ∃ value entries names properties required,
      fieldValue? "properties" fields = some value ∧ value.fields? = some entries ∧
        d.shape = .object properties required ∧ Merges name entries names properties ∧
        (List.Forall₂ (StatesProperty name) entries properties ↔ names.Nodup) := by
  obtain ⟨hkind, -, hshape⟩ := Definition.ofFieldsAs_eq_ok_iff.mp h
  obtain ⟨header, shape⟩ := d
  cases hshape with
  | object hentries hstated hrequired =>
    obtain ⟨value, hvalue, hfields, -⟩ := propertyEntries_eq_ok_iff.mp hentries
    refine ⟨value, _, _, _, _, hvalue, hfields, rfl, merges_collectProperties name hstated, ?_⟩
    rw [statesProperty_eq]
    exact readsProperties_collectProperties_iff hstated
  | _ => cases hkind

/-- Two entries whose keys are different and read as one name. -/
def clashingEntries : Fields :=
  [(.text "x", .map [(.text "type", .text "int")]),
    (.tagged ⟨"t"⟩ (.text "x"), .map [(.text "type", .text "bool")])]

/-- An object with such entries. -/
def clashingBody : Fields :=
  [(.text "type", .text "object"), (.text "properties", .map clashingEntries)]

/-- What is read from it: one property, with the type that was stated last. -/
def clashing : Definition :=
  ⟨⟨"Point", none⟩, .object [("x", .inline ⟨"x", none⟩ .bool)] []⟩

theorem ofFieldsAs_clashingBody :
    (Definition.ofFieldsAs .object "Point" clashingBody).outcome = .ok clashing := by
  have hint : ReadsType "x" (.map [(.text "type", .text "int")])
      (.inline ⟨"x", none⟩ (.int .int32)) :=
    .inline rfl (Definition.ofFields_eq_ok_iff.mpr ⟨rfl, rfl, .int rfl⟩)
  have hbool : ReadsType "x" (.map [(.text "type", .text "bool")]) (.inline ⟨"x", none⟩ .bool) :=
    .inline rfl (Definition.ofFields_eq_ok_iff.mpr ⟨rfl, rfl, .bool⟩)
  have hstated : List.Forall₂ ReadsProperty clashingEntries
      [("x", .inline ⟨"x", none⟩ (.int .int32)), ("x", .inline ⟨"x", none⟩ .bool)] :=
    .cons ⟨rfl, hint⟩ (.cons ⟨rfl, hbool⟩ .nil)
  exact Definition.ofFieldsAs_eq_ok_iff.mpr ⟨rfl, rfl, .object rfl hstated rfl⟩

theorem properties_of_clashingBody :
    (Definition.ofFieldsAs .object "Point" clashingBody).outcome = .ok clashing ∧
      ∃ value entries names properties required,
        fieldValue? "properties" clashingBody = some value ∧ value.fields? = some entries ∧
          clashing.shape = .object properties required ∧
          Merges "Point" entries names properties ∧
          (List.Forall₂ (StatesProperty "Point") entries properties ↔ names.Nodup) :=
  ⟨ofFieldsAs_clashingBody, Definition.properties_of_ofFieldsAs ofFieldsAs_clashingBody⟩

/-- Of two different keys that read as one name, the first loses its property: an object is read
that has fewer properties than entries. -/
theorem clashingBody_loses_property :
    clashingEntries.Pairwise (fun a b => a.1.same b.1 = false) ∧
      fieldValue? "properties" clashingBody = some (.map clashingEntries) ∧
      (Definition.ofFieldsAs .object "Point" clashingBody).outcome = .ok clashing ∧
      ∀ properties required, clashing.shape = .object properties required →
        ¬ List.Forall₂ (StatesProperty "Point") clashingEntries properties := by
  refine ⟨by decide, rfl, ofFieldsAs_clashingBody, fun properties required hshape h => ?_⟩
  cases hshape
  have hlength := h.length_eq
  contradiction

end TypeTable
