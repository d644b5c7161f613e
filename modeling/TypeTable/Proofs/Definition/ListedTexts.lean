import Mathlib.Data.List.Induction
import TypeTable.Proofs.Definition.Grammar

/-!
# Fields that list texts

Two fields of bodies are lists of texts: the values of an enumeration, and the required properties
of an object. Their items are read in order. If they are in order, an enumeration has their texts as
they stand, and an object requires each of their texts once, where it stands first
(`FirstOccurrences`). If they are not, the first item that is at fault decides, and what follows it
does not matter (`FirstItemFault`). `Definition.enumeration_of_ofFieldsAs` and
`Definition.required_of_ofFieldsAs` say this of bodies that are otherwise in order.
-/

namespace TypeTable

open Fault (Cause)

/-! ## Faults of items -/

/-- The fault of the first item of a list that has one. Whether an item has a fault may depend on
the items before it. -/
def FirstItemFault (itemFault : List Tree → Tree → Fault → Prop) (items : List Tree)
    (fault : Fault) : Prop :=
  ∃ i item, items[i]? = some item ∧ itemFault (items.take i) item fault ∧
    ∀ j < i, ∀ earlier, items[j]? = some earlier → ∀ other, ¬ itemFault (items.take j) earlier other

section FirstItemFault

variable {itemFault : List Tree → Tree → Fault → Prop} {fault : Fault}

theorem not_firstItemFault_nil : ¬ FirstItemFault itemFault [] fault := by
  intro h
  obtain ⟨_, _, hitem, -⟩ := h
  cases hitem

theorem firstItemFault_cons_iff {item : Tree} {rest : List Tree} :
    FirstItemFault itemFault (item :: rest) fault ↔ itemFault [] item fault ∨
      (∀ other, ¬ itemFault [] item other) ∧
        FirstItemFault (fun before => itemFault (item :: before)) rest fault := by
  constructor
  · intro h
    obtain ⟨i, found, hfound, hfault, hfirst⟩ := h
    cases i with
    | zero =>
      cases hfound
      exact .inl hfault
    | succ i =>
      refine .inr ⟨hfirst 0 (Nat.succ_pos i) item rfl, i, found, hfound, hfault, fun j hj => ?_⟩
      exact hfirst (j + 1) (Nat.succ_lt_succ hj)
  · intro h
    rcases h with hfault | ⟨hnone, i, found, hfound, hfault, hfirst⟩
    · exact ⟨0, item, rfl, hfault, fun j hj => absurd hj (Nat.not_lt_zero j)⟩
    · refine ⟨i + 1, found, hfound, hfault, fun j hj earlier hearlier => ?_⟩
      cases j with
      | zero =>
        cases hearlier
        exact hnone
      | succ j => exact hfirst j (Nat.lt_of_succ_lt_succ hj) earlier hearlier

end FirstItemFault

/-! ## Enumerations -/

/-- A value enumerates texts: it reads as a sequence of them, of one at least, and none of them is
there twice. -/
structure Enumerates (value : Tree) (texts : List String) : Prop where
  reads : ∃ items, value.items? = some items ∧ Tree.ReadAs items texts
  nonempty : texts ≠ []
  nodup : texts.Nodup

/-- An item of an enumeration is no text, or it reads as an item before it does. -/
inductive EnumItemFault (name : String) (before : List Tree) (item : Tree) : Fault → Prop
  | notText (h : item.text? = none) :
    EnumItemFault name before item (Cause.enumNotTexts.within name)
  | repeated {text : String} {earlier : Tree} (htext : item.text? = some text)
    (hearlier : earlier ∈ before) (h : earlier.text? = some text) :
    EnumItemFault name before item ((Cause.enumRepeated text).within name)

section Enumerations

variable {name : String} {fault : Fault}

theorem enumItemFault_iff {past : List Tree} {seen : List String} (hseen : Tree.ReadAs past seen)
    {item : Tree} :
    EnumItemFault name past item fault ↔
      (item.text? = none ∧ fault = Cause.enumNotTexts.within name) ∨
        ∃ text, item.text? = some text ∧ text ∈ seen ∧
          fault = (Cause.enumRepeated text).within name := by
  simp only [hseen.mem_iff]
  constructor
  · intro h
    cases h with
    | notText h => exact .inl ⟨h, rfl⟩
    | repeated htext hearlier h => exact .inr ⟨_, htext, ⟨_, hearlier, h⟩, rfl⟩
  · intro h
    rcases h with ⟨h, rfl⟩ | ⟨text, htext, ⟨earlier, hearlier, h⟩, rfl⟩
    · exact .notText h
    · exact .repeated htext hearlier h

/-- Behind items that were read as the texts seen so far, the first item at fault decides. -/
theorem enumValues_eq_error_iff {past items : List Tree} {seen : List String}
    (hseen : Tree.ReadAs past seen) :
    enumValues name seen items = .error fault ↔
      FirstItemFault (fun before => EnumItemFault name (past ++ before)) items fault := by
  induction items generalizing past seen with
  | nil =>
    refine ⟨fun h => ?_, fun h => absurd h not_firstItemFault_nil⟩
    cases h
  | cons item rest ih =>
    rw [firstItemFault_cons_iff, List.append_nil, enumValues]
    simp only [enumItemFault_iff hseen]
    cases htext : item.text? with
    | none => simp [eq_comm (b := fault)]
    | some text =>
      by_cases hmem : text ∈ seen
      · simp [hmem, eq_comm (b := fault)]
      · -- The item is in order, and is one more of those that were read.
        have hnext : Tree.ReadAs (past ++ [item]) (seen ++ [text]) := by
          rw [Tree.readAs_append hseen, Tree.readAs_cons_left]
          exact ⟨text, [], htext, rfl, rfl⟩
        simp [hmem, ih hnext]

theorem enumeration_eq_error_iff {value : Tree} {items : List Tree}
    (hitems : value.items? = some items) (hne : items ≠ []) :
    enumeration name value = .error fault ↔ FirstItemFault (EnumItemFault name) items fault := by
  cases items with
  | nil => exact absurd rfl hne
  | cons item rest =>
    have hstart : Tree.ReadAs [] [] := rfl
    rw [enumeration, hitems]
    exact enumValues_eq_error_iff hstart

end Enumerations

theorem enumeration_eq_ok_iff_enumerates {name : String} {value : Tree} {texts : List String} :
    enumeration name value = .ok texts ↔ Enumerates value texts := by
  rw [enumeration_eq_ok_iff]
  constructor
  · rintro ⟨items, hitems, hread, hne, hnodup⟩
    exact ⟨⟨items, hitems, hread⟩, hne, hnodup⟩
  · rintro ⟨⟨items, hitems, hread⟩, hne, hnodup⟩
    exact ⟨items, hitems, hread, hne, hnodup⟩

/-- The body of a string that is in order but for its enumeration is in that. -/
theorem Definition.outcome_ofFieldsAs_string {name : String} {fields : Fields} {header : Header}
    {value : Tree} (hheader : Header.ofFields name (Kind.ownFields .string) fields = .ok header)
    (hvalue : fieldValue? "enum" fields = some value) :
    (Definition.ofFieldsAs .string name fields).outcome =
      (enumeration name value).map fun texts => ⟨header, .string (some texts)⟩ := by
  have hfield : enumField name fields = (enumeration name value).map some := by
    rw [enumField, hvalue]
  rw [ofFieldsAs_string, hheader, hfield, Traced.lift_ok, pure_bind, Traced.outcome_bind_pure]
  cases enumeration name value <;> rfl

/-- The body of a string that is in order but for its enumeration is read exactly where this
enumerates texts. They are the values in the order in which they stand, and no other string is one.
Where the enumeration is a list of items and the body is not read, the first item at fault decides:
one that is no text, or that reads as an item before it. -/
theorem Definition.enumeration_of_ofFieldsAs {name : String} {fields : Fields} {header : Header}
    {value : Tree} (hheader : Header.ofFields name (Kind.ownFields .string) fields = .ok header)
    (hvalue : fieldValue? "enum" fields = some value) :
    ((∃ d, (Definition.ofFieldsAs .string name fields).outcome = .ok d) ↔
      ∃ texts, Enumerates value texts) ∧
    (∀ texts, Enumerates value texts →
      ∃ d : Definition, (Definition.ofFieldsAs .string name fields).outcome = .ok d ∧
        d = ⟨header, .string (some texts)⟩ ∧ ∀ s, d.enumerates? s = some (decide (s ∈ texts))) ∧
    ∀ items, value.items? = some items → items ≠ [] → ∀ fault,
      (Definition.ofFieldsAs .string name fields).outcome = .error fault ↔
        FirstItemFault (EnumItemFault name) items fault := by
  rw [outcome_ofFieldsAs_string hheader hvalue]
  simp only [Except.map_eq_ok_iff, Except.map_eq_error_iff, enumeration_eq_ok_iff_enumerates]
  refine ⟨⟨?_, ?_⟩, ?_, ?_⟩
  · rintro ⟨_, texts, htexts, -⟩
    exact ⟨texts, htexts⟩
  · rintro ⟨texts, htexts⟩
    exact ⟨_, texts, htexts, rfl⟩
  · refine fun texts htexts => ⟨_, ⟨texts, htexts, rfl⟩, rfl, fun s => ?_⟩
    simp [enumerates?]
  · exact fun items hitems hne fault => enumeration_eq_error_iff hitems hne

/-- Items of which the second reads as the first one, and the third is no text. -/
def paintItems : List Tree :=
  [.text "red", .tagged ⟨"t"⟩ (.text "red"), .int 3]

/-- A string that has them for its values. -/
def paintBody : Fields :=
  [(.text "type", .text "string"), (.text "enum", .tagged ⟨"t"⟩ (.seq paintItems))]

/-- The second item decides. -/
theorem enumeration_of_paintBody :
    Header.ofFields "Paint" (Kind.ownFields .string) paintBody = .ok ⟨"Paint", none⟩ ∧
      fieldValue? "enum" paintBody = some (.tagged ⟨"t"⟩ (.seq paintItems)) ∧
      (Definition.ofFieldsAs .string "Paint" paintBody).outcome =
        .error ((Cause.enumRepeated "red").within "Paint") := by
  have hheader : Header.ofFields "Paint" (Kind.ownFields .string) paintBody =
      .ok ⟨"Paint", none⟩ := rfl
  have hvalue : fieldValue? "enum" paintBody = some (.tagged ⟨"t"⟩ (.seq paintItems)) := rfl
  obtain ⟨-, -, hfails⟩ := Definition.enumeration_of_ofFieldsAs hheader hvalue
  refine ⟨hheader, hvalue, (hfails paintItems rfl (by decide) _).mpr ⟨1, _, rfl, ?_, ?_⟩⟩
  · exact .repeated rfl (List.mem_cons_self ..) rfl
  · intro j hj earlier hearlier other hother
    obtain rfl := Nat.lt_one_iff.mp hj
    cases hearlier
    cases hother with
    | notText h => cases h
    | repeated _ hmem _ => cases hmem

/-! ## Required properties -/

/-- Texts without repeats, in the order in which each of them comes first in a list. -/
structure FirstOccurrences (texts required : List String) : Prop where
  nodup : required.Nodup
  mem_iff (text : String) : text ∈ required ↔ text ∈ texts
  order : required.Pairwise fun text other => texts.idxOf text < texts.idxOf other

/-- There is one such list of the texts of a list. -/
theorem FirstOccurrences.unique {texts required others : List String}
    (h : FirstOccurrences texts required) (hothers : FirstOccurrences texts others) :
    required = others := by
  have hperm : required.Perm others := (List.perm_ext_iff_of_nodup h.nodup hothers.nodup).mpr
    fun text => (h.mem_iff text).trans (hothers.mem_iff text).symm
  exact hperm.eq_of_pairwise (fun _ _ _ _ hlt hgt => absurd hgt (Nat.lt_asymm hlt)) h.order
    hothers.order

/-- What is put behind texts does not change which of two of them comes first. -/
theorem idxOf_lt_append {texts : List String} {text other : String} (htext : text ∈ texts)
    (hother : other ∈ texts) (h : texts.idxOf text < texts.idxOf other) (more : List String) :
    (texts ++ more).idxOf text < (texts ++ more).idxOf other := by
  rwa [List.idxOf_append_of_mem htext, List.idxOf_append_of_mem hother]

theorem idxOf_lt_idxOf_last {texts : List String} {text last : String} (htext : text ∈ texts)
    (hlast : last ∉ texts) : (texts ++ [last]).idxOf text < (texts ++ [last]).idxOf last := by
  rw [List.idxOf_append_of_mem htext, List.idxOf_append_of_notMem hlast]
  exact Nat.lt_add_right _ (List.idxOf_lt_length_of_mem htext)

theorem pairwise_addNew (texts : List String) :
    (addNew [] texts).Pairwise fun text other => texts.idxOf text < texts.idxOf other := by
  induction texts using List.reverseRecOn with
  | nil => exact .nil
  | append_singleton texts last ih =>
    have hpairwise : (addNew [] texts).Pairwise fun text other =>
        (texts ++ [last]).idxOf text < (texts ++ [last]).idxOf other := by
      refine ih.imp_of_mem fun htext hother hlt => ?_
      exact idxOf_lt_append (mem_addNew_nil.mp htext) (mem_addNew_nil.mp hother) hlt [last]
    rw [addNew_append, addNew_cons, addNew_nil]
    split
    · exact hpairwise
    · next hnew =>
      rw [List.contains_iff_mem, mem_addNew_nil] at hnew
      refine List.pairwise_append.mpr ⟨hpairwise, List.pairwise_singleton .., ?_⟩
      intro text htext other hother
      rw [List.mem_singleton.mp hother]
      exact idxOf_lt_idxOf_last (mem_addNew_nil.mp htext) hnew

theorem firstOccurrences_addNew (texts : List String) : FirstOccurrences texts (addNew [] texts) where
  nodup := nodup_addNew texts List.nodup_nil
  mem_iff _ := mem_addNew_nil
  order := pairwise_addNew texts

/-- An item of a list of required properties is no text, or it names no declared one. -/
inductive RequiredItemFault (name : String) (declared : List String) (item : Tree) : Fault → Prop
  | notText (h : item.text? = none) :
    RequiredItemFault name declared item (Cause.requiredNotNames.within name)
  | undeclared {property : String} (htext : item.text? = some property) (h : property ∉ declared) :
    RequiredItemFault name declared item ((Cause.requiredUndeclared property).within name)

/-- The entries under `properties` of a body are read, and make these properties. -/
def MakesProperties (name : String) (fields : Fields) (properties : List (String × TypeExpr)) :
    Prop :=
  ∃ entries stated, propertyEntries name fields = .ok entries ∧
    (readProperties name entries).outcome = .ok stated ∧ collectProperties stated = properties

section Required

variable {name : String} {declared : List String} {fault : Fault}

theorem requiredItemFault_iff {item : Tree} :
    RequiredItemFault name declared item fault ↔
      (item.text? = none ∧ fault = Cause.requiredNotNames.within name) ∨
        ∃ property, item.text? = some property ∧ property ∉ declared ∧
          fault = (Cause.requiredUndeclared property).within name := by
  constructor
  · intro h
    cases h with
    | notText h => exact .inl ⟨h, rfl⟩
    | undeclared htext h => exact .inr ⟨_, htext, h, rfl⟩
  · intro h
    rcases h with ⟨h, rfl⟩ | ⟨property, htext, h, rfl⟩
    · exact .notText h
    · exact .undeclared htext h

/-- The first item at fault decides, whatever names were seen before. -/
theorem requiredNames_eq_error_iff {seen : List String} {items : List Tree} :
    requiredNames name declared seen items = .error fault ↔
      FirstItemFault (fun _ => RequiredItemFault name declared) items fault := by
  induction items generalizing seen with
  | nil =>
    refine ⟨fun h => ?_, fun h => absurd h not_firstItemFault_nil⟩
    cases h
  | cons item rest ih =>
    rw [firstItemFault_cons_iff, requiredNames]
    simp only [requiredItemFault_iff]
    cases htext : item.text? with
    | none => simp [eq_comm (b := fault)]
    | some property =>
      by_cases hmem : property ∈ declared
      · simp [hmem, ih]
      · simp [hmem, eq_comm (b := fault)]

variable {fields : Fields} {header : Header} {properties : List (String × TypeExpr)} {value : Tree}

/-- The body of an object that is in order but for what it requires is in that. -/
theorem Definition.outcome_ofFieldsAs_object
    (hheader : Header.ofFields name (Kind.ownFields .object) fields = .ok header)
    (hproperties : MakesProperties name fields properties) :
    (Definition.ofFieldsAs .object name fields).outcome =
      (requiredField name (properties.map (·.1)) fields).map fun required =>
        ⟨header, .object properties required⟩ := by
  obtain ⟨entries, stated, hentries, hstated, rfl⟩ := hproperties
  rw [ofFieldsAs_object, hheader, hentries, Traced.lift_ok, Traced.lift_ok, pure_bind, pure_bind,
    Traced.outcome_bind, hstated]
  exact Traced.outcome_bind_pure _ _

theorem requiredField_eq_ok_iff_of_items (hvalue : fieldValue? "required" fields = some value)
    (hvoid : value.isVoid = false) {required : List String} :
    requiredField name declared fields = .ok required ↔
      ∃ items texts, value.items? = some items ∧ Tree.ReadAs items texts ∧
        (∀ text ∈ texts, text ∈ declared) ∧ required = addNew [] texts := by
  simp [requiredField_eq_ok_iff, hvalue, hvoid]

end Required

/-- The body of an object whose properties are read. If its header is not read, that is its fault.
Otherwise nothing is required where the field is absent or void. Where it is not, the body is read
exactly if the value is a list of names of the properties, and then each name in the list is
required, once, in the order in which the names come first. If a list is refused, the first item at
fault decides: one that is no text, or that names no property. -/
theorem Definition.required_of_ofFieldsAs {name : String} {fields : Fields}
    {properties : List (String × TypeExpr)} (hproperties : MakesProperties name fields properties) :
    (∀ fault, Header.ofFields name (Kind.ownFields .object) fields = .error fault →
      (Definition.ofFieldsAs .object name fields).outcome = .error fault) ∧
    ∀ header, Header.ofFields name (Kind.ownFields .object) fields = .ok header →
      ((∀ value, fieldValue? "required" fields = some value → value.isVoid = true) →
        (Definition.ofFieldsAs .object name fields).outcome =
          .ok ⟨header, .object properties []⟩) ∧
      ∀ value, fieldValue? "required" fields = some value → value.isVoid = false →
        ((∃ d, (Definition.ofFieldsAs .object name fields).outcome = .ok d) ↔
          ∃ items, value.items? = some items ∧ ∀ item ∈ items, ∃ property,
            item.text? = some property ∧ property ∈ properties.map (·.1)) ∧
        (∀ d, (Definition.ofFieldsAs .object name fields).outcome = .ok d →
          ∃ items texts required, value.items? = some items ∧ Tree.ReadAs items texts ∧
            d = ⟨header, .object properties required⟩ ∧ FirstOccurrences texts required ∧
            ∀ property, d.requires? property = some (decide (property ∈ texts))) ∧
        ∀ items, value.items? = some items → ∀ fault,
          (Definition.ofFieldsAs .object name fields).outcome = .error fault ↔
            FirstItemFault (fun _ => RequiredItemFault name (properties.map (·.1))) items
              fault := by
  refine ⟨fun fault hfault => ?_, fun header hheader => ?_⟩
  · rw [ofFieldsAs_object, hfault]
    rfl
  rw [outcome_ofFieldsAs_object hheader hproperties]
  simp only [Except.map_eq_ok_iff, Except.map_eq_error_iff]
  refine ⟨fun hvoid => ?_, fun value hvalue hvoid => ⟨?_, ?_, fun items hitems fault => ?_⟩⟩
  · exact ⟨[], requiredField_eq_ok_iff.mpr (.inl ⟨hvoid, rfl⟩), rfl⟩
  · have hread : (∃ required, requiredField name (properties.map (·.1)) fields = .ok required) ↔
        ∃ items, value.items? = some items ∧ ∀ item ∈ items, ∃ property,
          item.text? = some property ∧ property ∈ properties.map (·.1) := by
      rw [exists_requiredField_iff]
      simp [Grammar.Optional, hvalue, hvoid]
    rw [← hread]
    constructor
    · rintro ⟨_, required, h, -⟩
      exact ⟨required, h⟩
    · rintro ⟨required, h⟩
      exact ⟨_, required, h, rfl⟩
  · rintro d ⟨required, hrequired, hd⟩
    obtain ⟨items, texts, hitems, hread, -, rfl⟩ :=
      (requiredField_eq_ok_iff_of_items hvalue hvoid).mp hrequired
    refine ⟨items, texts, _, hitems, hread, hd, firstOccurrences_addNew texts, fun property => ?_⟩
    simp [hd, requires?, mem_addNew_nil]
  · rw [requiredField, hvalue]
    simp only [hvoid, hitems]
    exact requiredNames_eq_error_iff

/-- An object that requires one of its properties twice, the second time under a tag. -/
def pointBody : Fields :=
  [(.text "type", .text "object"),
    (.text "properties", .map [(.text "x", .text "#X"), (.text "y", .text "#Y")]),
    (.text "required", .seq [.text "y", .text "x", .tagged ⟨"t"⟩ (.text "y")])]

/-- Its properties. -/
def pointProperties : List (String × TypeExpr) :=
  [("x", .named "X"), ("y", .named "Y")]

theorem makesProperties_pointBody : MakesProperties "Point" pointBody pointProperties := by
  have hread : (readProperties "Point" [(.text "x", .text "#X"), (.text "y", .text "#Y")]).outcome =
      .ok pointProperties :=
    readProperties_eq_ok_iff.mpr (.cons ⟨rfl, .named rfl⟩ (.cons ⟨rfl, .named rfl⟩ .nil))
  exact ⟨_, _, rfl, hread, rfl⟩

/-- It is required once, at the place where it comes first. -/
theorem required_of_pointBody :
    MakesProperties "Point" pointBody pointProperties ∧
      (Definition.ofFieldsAs .object "Point" pointBody).outcome =
        .ok ⟨⟨"Point", none⟩, .object pointProperties ["y", "x"]⟩ := by
  obtain ⟨-, hread⟩ := Definition.required_of_ofFieldsAs makesProperties_pointBody
  obtain ⟨-, hrequired⟩ := hread ⟨"Point", none⟩ rfl
  obtain ⟨hexists, hgives, -⟩ := hrequired _ rfl rfl
  have hnames : ∀ item ∈ [Tree.text "y", .text "x", .tagged ⟨"t"⟩ (.text "y")],
      ∃ property, item.text? = some property ∧ property ∈ pointProperties.map (·.1) := by
    simp [Tree.text?, Tree.untagged, pointProperties]
  obtain ⟨d, hd⟩ := hexists.mpr ⟨_, rfl, hnames⟩
  obtain ⟨items, texts, required, hitems, htexts, rfl, hfirst, -⟩ := hgives d hd
  cases hitems
  have hyxy : texts = ["y", "x", "y"] := htexts.unique rfl
  rw [hyxy] at hfirst
  have hyx : required = ["y", "x"] := hfirst.unique (firstOccurrences_addNew _)
  rw [← hyx]
  exact ⟨makesProperties_pointBody, hd⟩

end TypeTable
