import TypeTable.Definition.Fields
import TypeTable.Proofs.Tree.Views

/-!
# When a field is read

For each reader of a field, the values it gives and when it gives them: `readWord_eq_ok_iff`,
`Header.ofFields_eq_ok_iff`, `enumField_eq_ok_iff`, `requiredField_eq_ok_iff` and their kin. None of
them mentions a fault, so what reads a body successfully never has to look into these readers.

`addNew` is the list that names make when each is put behind the others unless it is there already:
required names are kept that way, and so are the names of properties.

Where the value of a field that holds types is changed, its reader gives what it gave, changed:
`elementValue_map`, `propertyEntries_map`.
-/

namespace TypeTable

/-! ## References -/

theorem referenceTarget?_eq_some_iff {text target : String} :
    referenceTarget? text = some target ↔ text = "#" ++ target := by
  have htext : text = "#" ++ target ↔ text.toList = '#' :: target.toList := by
    rw [← String.toList_inj, String.toList_append]
    rfl
  rw [htext, referenceTarget?]
  split
  · next name hname =>
    rw [hname, Option.some.injEq, List.cons.injEq, and_iff_right rfl, ← String.toList_inj,
      String.toList_ofList]
  · next hnot =>
    simp only [reduceCtorEq, false_iff]
    exact hnot target.toList

/-- A value refers to the name that stands behind the mark in its text. -/
theorem Tree.reference?_eq_some_iff {value : Tree} {target : String} :
    value.reference? = some target ↔ value.text? = some ("#" ++ target) := by
  unfold Tree.reference?
  cases value.text? <;> simp [referenceTarget?_eq_some_iff]

theorem Tree.reference?_eq_none_of_fields? {value : Tree} {fields : Fields}
    (h : value.fields? = some fields) : value.reference? = none := by
  unfold Tree.reference?
  cases htext : value.text? with
  | none => rfl
  | some text =>
    rw [Tree.fields?_eq_none_of_text? htext] at h
    cases h

/-! ## Words -/

theorem readWord_eq_ok_iff {α : Type} [Spelled α] {owner : Option String} {field : String}
    {value : Tree} {member : α} :
    readWord α owner field value = .ok member ↔ value.text? = some (word member) := by
  have hbind : value.text?.bind Spelled.ofWord? = some member ↔
      value.text? = some (word member) := by
    simp only [Option.bind_eq_some_iff, Spelled.ofWord?_eq_some_iff]
    exact ⟨fun ⟨text, htext, hword⟩ => hword ▸ htext, fun htext => ⟨_, htext, rfl⟩⟩
  rw [← hbind, readWord]
  split
  · next found hfound => rw [hfound, Except.ok.injEq, Option.some.injEq]
  · next hnone => simp [hnone]

/-- A closed set is left at its usual member only when the field is not there. -/
theorem wordField_eq_ok_iff {α : Type} [Spelled α] [Inhabited α] {name field : String}
    {fields : Fields} {member : α} :
    wordField α name field fields = .ok member ↔
      (fieldValue? field fields = none ∧ member = default) ∨
        ∃ value, fieldValue? field fields = some value ∧ value.text? = some (word member) := by
  unfold wordField
  split
  · next value hvalue => simp [hvalue, readWord_eq_ok_iff]
  · next hnone => simp [hnone, eq_comm]

theorem Kind.ofFields_eq_ok_iff {name : String} {fields : Fields} {kind : Kind} :
    Kind.ofFields name fields = .ok kind ↔
      ∃ value, fieldValue? "type" fields = some value ∧ value.text? = some (word kind) := by
  unfold Kind.ofFields
  split
  · next value hvalue => simp [hvalue, readWord_eq_ok_iff]
  · next hnone => simp [hnone]

/-! ## The header -/

theorem isFieldKey_iff {own : List String} {key : Tree} :
    isFieldKey own key = true ↔ ∃ field, key.text? = some field ∧ field ∈ Kind.sharedFields ++ own := by
  unfold isFieldKey
  split
  · next field hfield => simp [hfield]
  · next hnone => simp [hnone]

/-- A header is in the first key that names no field, if there is one, and in the description. -/
theorem Header.ofFields_eq (name : String) (own : List String) (fields : Fields) :
    Header.ofFields name own fields =
      match (fields.find? fun entry => !isFieldKey own entry.1).map (·.1) with
      | some key => .error ((Fault.Cause.fieldUnknown key.describe).within name)
      | none =>
        match fieldValue? "description" fields with
        | none => .ok ⟨name, none⟩
        | some (.text description) => .ok ⟨name, some description⟩
        | some _ => .error (Fault.Cause.descriptionNotText.within name) := by
  unfold Header.ofFields
  cases fields.find? fun entry => !isFieldKey own entry.1 <;> rfl

/-- A header is read when every key is a field of the body and the description, if there is one, is
an untagged text. -/
theorem Header.ofFields_eq_ok_iff {name : String} {own : List String} {fields : Fields}
    {header : Header} :
    Header.ofFields name own fields = .ok header ↔
      (∀ entry ∈ fields, isFieldKey own entry.1 = true) ∧ header.name = name ∧
        fieldValue? "description" fields = header.description.map .text := by
  have hkeys : (fields.find? fun entry => !isFieldKey own entry.1) = none ↔
      ∀ entry ∈ fields, isFieldKey own entry.1 = true := by simp
  obtain ⟨title, description⟩ := header
  unfold Header.ofFields
  split
  · next entry hentry =>
    simp only [reduceCtorEq, false_iff]
    intro h
    rw [hkeys.mpr h.1] at hentry
    cases hentry
  · next hnone =>
    rw [hkeys] at hnone
    simp only [and_iff_right hnone]
    split
    · next habsent =>
      rw [habsent]
      cases description <;> simp [eq_comm (a := name)]
    · next text htext =>
      rw [htext]
      cases description <;> simp [eq_comm (a := name), eq_comm (a := text)]
    · next value htext hvalue =>
      rw [hvalue]
      cases description with
      | none => simp
      | some text =>
        simp only [reduceCtorEq, Option.map_some, Option.some.injEq, false_iff, not_and]
        exact fun _ => htext text

/-! ## Enumerations -/

/-- The values behind those seen so far are the texts of the items, none of them seen before. -/
theorem enumValues_eq_ok_iff {name : String} {seen values : List String} {items : List Tree} :
    enumValues name seen items = .ok values ↔
      ∃ texts, Tree.ReadAs items texts ∧ texts.Nodup ∧ (∀ text ∈ texts, text ∉ seen) ∧
        values = seen ++ texts := by
  induction items generalizing seen with
  | nil => simp [enumValues, eq_comm]
  | cons item rest ih =>
    unfold enumValues
    simp only [Tree.readAs_cons_left]
    split
    · next hnone => simp [hnone]
    · next text htext =>
      by_cases hseen : text ∈ seen
      · rw [if_pos (List.contains_iff_mem.mpr hseen)]
        simp only [reduceCtorEq, false_iff]
        intro h
        obtain ⟨texts, ⟨word, words, hword, -, rfl⟩, -, hnew, -⟩ := h
        rw [htext] at hword
        cases hword
        exact hnew text (List.mem_cons_self ..) hseen
      · rw [if_neg (by simpa using hseen), ih]
        constructor
        · intro h
          obtain ⟨texts, hread, hnodup, hnew, rfl⟩ := h
          refine ⟨text :: texts, ⟨text, texts, htext, hread, rfl⟩, ?_, ?_, by simp⟩
          · refine List.nodup_cons.mpr ⟨fun hmem => ?_, hnodup⟩
            exact hnew text hmem (by simp)
          · rw [List.forall_mem_cons]
            exact ⟨hseen, fun word hword hold => hnew word hword (List.mem_append_left _ hold)⟩
        · intro h
          obtain ⟨texts, ⟨word, words, hword, hread, rfl⟩, hnodup, hnew, rfl⟩ := h
          rw [htext] at hword
          cases hword
          rw [List.nodup_cons] at hnodup
          rw [List.forall_mem_cons] at hnew
          refine ⟨words, hread, hnodup.2, fun word hword => ?_, by simp⟩
          rw [List.mem_append, List.mem_singleton]
          intro h
          rcases h with hold | rfl
          · exact hnew.2 word hword hold
          · exact hnodup.1 hword

theorem enumeration_eq_ok_iff {name : String} {value : Tree} {values : List String} :
    enumeration name value = .ok values ↔
      ∃ items, value.items? = some items ∧ Tree.ReadAs items values ∧ values ≠ [] ∧
        values.Nodup := by
  unfold enumeration
  split
  · next hnone => simp [hnone]
  · next hempty =>
    simp only [reduceCtorEq, hempty, Option.some.injEq, exists_eq_left', Tree.readAs_nil_left,
      false_iff]
    exact fun h => h.2.1 h.1
  · next items hnonempty hitems =>
    simp only [enumValues_eq_ok_iff, hitems, Option.some.injEq, exists_eq_left']
    constructor
    · intro h
      obtain ⟨texts, hread, hnodup, -, rfl⟩ := h
      exact ⟨hread, fun hnil => hnonempty (hread.eq_nil_iff.mpr hnil), hnodup⟩
    · intro h
      obtain ⟨hread, _, hnodup⟩ := h
      exact ⟨values, hread, hnodup, by simp, rfl⟩

theorem enumField_eq_ok_iff {name : String} {fields : Fields} {values : Option (List String)} :
    enumField name fields = .ok values ↔
      (fieldValue? "enum" fields = none ∧ values = none) ∨
        ∃ value texts, fieldValue? "enum" fields = some value ∧
          enumeration name value = .ok texts ∧ values = some texts := by
  unfold enumField
  split
  · next hnone => simp [hnone, eq_comm]
  · next value hvalue =>
    cases henum : enumeration name value <;> simp [hvalue, henum, Except.map, eq_comm]

/-! ## Names without repeats -/

/-- Texts put one by one behind those that are there, each of them once. -/
def addNew (seen texts : List String) : List String :=
  texts.foldl (fun seen text => if seen.contains text then seen else seen ++ [text]) seen

@[simp] theorem addNew_nil (seen : List String) : addNew seen [] = seen := rfl

theorem addNew_cons (seen : List String) (text : String) (texts : List String) :
    addNew seen (text :: texts) =
      addNew (if seen.contains text then seen else seen ++ [text]) texts := rfl

theorem addNew_append (seen texts words : List String) :
    addNew seen (texts ++ words) = addNew (addNew seen texts) words :=
  List.foldl_append

theorem mem_addNew {seen texts : List String} {text : String} :
    text ∈ addNew seen texts ↔ text ∈ seen ∨ text ∈ texts := by
  induction texts generalizing seen with
  | nil => simp
  | cons first rest ih =>
    rw [addNew_cons, ih, List.mem_cons]
    split
    · next hseen =>
      have hfirst : first ∈ seen := List.contains_iff_mem.mp hseen
      constructor
      · exact fun h => h.imp_right .inr
      · intro h
        rcases h with h | rfl | h
        · exact .inl h
        · exact .inl hfirst
        · exact .inr h
    · next hnew => rw [List.mem_append, List.mem_singleton, or_assoc]

theorem mem_addNew_nil {texts : List String} {text : String} :
    text ∈ addNew [] texts ↔ text ∈ texts := by
  rw [mem_addNew, or_iff_right List.not_mem_nil]

theorem nodup_addNew {seen : List String} (texts : List String) (h : seen.Nodup) :
    (addNew seen texts).Nodup := by
  induction texts generalizing seen with
  | nil => exact h
  | cons first rest ih =>
    rw [addNew_cons]
    split
    · exact ih h
    · next hnew =>
      refine ih (List.nodup_append.mpr ⟨h, by simp, fun text htext other hother heq => hnew ?_⟩)
      rw [List.mem_singleton] at hother
      rwa [List.contains_iff_mem, ← hother, ← heq]

/-- Texts that are all new stand behind the others as they are. -/
theorem addNew_of_nodup {seen texts : List String} (h : (seen ++ texts).Nodup) :
    addNew seen texts = seen ++ texts := by
  induction texts generalizing seen with
  | nil => simp
  | cons first rest ih =>
    have hnew : first ∉ seen := fun hseen =>
      (List.nodup_append.mp h).2.2 first hseen first (List.mem_cons_self ..) rfl
    rw [addNew_cons, if_neg (by simpa using hnew), ih (by simpa using h), List.append_assoc,
      List.singleton_append]

/-! ## Required properties -/

/-- The required names are those seen so far and the texts of the items, all of them declared. -/
theorem requiredNames_eq_ok_iff {name : String} {declared seen required : List String}
    {items : List Tree} :
    requiredNames name declared seen items = .ok required ↔
      ∃ texts, Tree.ReadAs items texts ∧ (∀ text ∈ texts, text ∈ declared) ∧
        required = addNew seen texts := by
  induction items generalizing seen with
  | nil => simp [requiredNames, eq_comm]
  | cons item rest ih =>
    unfold requiredNames
    simp only [Tree.readAs_cons_left]
    split
    · next hnone => simp [hnone]
    · next text htext =>
      simp only [htext, Option.some.injEq, List.contains_iff_mem]
      split
      · next hdeclared =>
        rw [ih]
        constructor
        · intro h
          obtain ⟨texts, hread, hall, rfl⟩ := h
          refine ⟨text :: texts, ⟨text, texts, rfl, hread, rfl⟩, ?_, ?_⟩
          · exact List.forall_mem_cons.mpr ⟨hdeclared, hall⟩
          · simp [addNew_cons]
        · intro h
          obtain ⟨texts, ⟨_, words, rfl, hread, rfl⟩, hall, rfl⟩ := h
          refine ⟨words, hread, (List.forall_mem_cons.mp hall).2, ?_⟩
          simp [addNew_cons]
      · next hundeclared =>
        simp only [reduceCtorEq, false_iff]
        intro h
        obtain ⟨texts, ⟨_, words, rfl, -, rfl⟩, hall, -⟩ := h
        exact hundeclared (List.forall_mem_cons.mp hall).1

/-- Nothing is required where the field is absent or void; else its items name what is. -/
theorem requiredField_eq_ok_iff {name : String} {declared required : List String}
    {fields : Fields} :
    requiredField name declared fields = .ok required ↔
      ((∀ value, fieldValue? "required" fields = some value → value.isVoid = true) ∧
          required = []) ∨
        ∃ value items texts, fieldValue? "required" fields = some value ∧ value.isVoid = false ∧
          value.items? = some items ∧ Tree.ReadAs items texts ∧
          (∀ text ∈ texts, text ∈ declared) ∧ required = addNew [] texts := by
  unfold requiredField
  split
  · next hnone => simp [hnone, eq_comm (a := ([] : List String))]
  · next value hvalue =>
    simp only [hvalue, Option.some.injEq, forall_eq']
    cases hvoid : value.isVoid with
    | true => simp [hvoid, eq_comm (a := ([] : List String))]
    | false =>
      simp only [Bool.false_eq_true, if_false, false_and, false_or]
      split
      · next hnone => simp [hnone]
      · next items hitems =>
        rw [requiredNames_eq_ok_iff]
        constructor
        · intro h
          obtain ⟨texts, hread, hall, rfl⟩ := h
          exact ⟨value, items, texts, rfl, hvoid, hitems, hread, hall, rfl⟩
        · intro h
          obtain ⟨_, others, texts, rfl, -, hothers, hread, hall, rfl⟩ := h
          rw [hitems] at hothers
          cases hothers
          exact ⟨texts, hread, hall, rfl⟩

/-! ## Fields that hold types -/

theorem elementValue_eq_ok_iff {name : String} {fields : Fields} {value : Tree} :
    elementValue name fields = .ok value ↔
      fieldValue? "items" fields = some value ∧ value.isVoid = false := by
  refine ⟨elementValue_eq_ok, fun ⟨hvalue, hvoid⟩ => ?_⟩
  simp [elementValue, hvalue, hvoid]

theorem propertyEntries_eq_ok_iff {name : String} {fields entries : Fields} :
    propertyEntries name fields = .ok entries ↔
      ∃ value, fieldValue? "properties" fields = some value ∧ value.fields? = some entries ∧
        entries ≠ [] := by
  constructor
  · intro h
    obtain ⟨value, hvalue, hentries⟩ := propertyEntries_eq_ok h
    refine ⟨value, hvalue, hentries, ?_⟩
    intro h
    cases h
    simp [propertyEntries, hvalue, hentries] at h
  · intro h
    obtain ⟨value, hvalue, hentries, hne⟩ := h
    cases entries with
    | nil => exact absurd rfl hne
    | cons entry rest => simp [propertyEntries, hvalue, hentries]

/-- Under a change of the value that keeps whether it is void, the element is the changed one, or the
fault stays. -/
theorem elementValue_map {name : String} {fields fields' : Fields} {change : Tree → Tree}
    (hfield : fieldValue? "items" fields' = (fieldValue? "items" fields).map change)
    (hvoid : ∀ value, (change value).isVoid = value.isVoid) :
    elementValue name fields' = (elementValue name fields).map change := by
  unfold elementValue
  rw [hfield]
  cases fieldValue? "items" fields with
  | none => rfl
  | some value =>
    simp only [Option.map_some, hvoid]
    cases value.isVoid <;> rfl

/-- Under a change of the value that changes its entries and leaves some if there are any, the
entries are the changed ones, or the fault stays. -/
theorem propertyEntries_map {name : String} {fields fields' : Fields} {change : Tree → Tree}
    {changeEntries : Fields → Fields}
    (hfield : fieldValue? "properties" fields' = (fieldValue? "properties" fields).map change)
    (hfields : ∀ value, (change value).fields? = value.fields?.map changeEntries)
    (hempty : ∀ entries, changeEntries entries = [] ↔ entries = []) :
    propertyEntries name fields' = (propertyEntries name fields).map changeEntries := by
  unfold propertyEntries
  rw [hfield]
  cases fieldValue? "properties" fields with
  | none => rfl
  | some value =>
    simp only [Option.map_some, hfields]
    cases value.fields? with
    | none => rfl
    | some entries =>
      cases entries with
      | nil =>
        rw [Option.map_some, (hempty []).mpr rfl]
        rfl
      | cons entry rest =>
        have hne : changeEntries (entry :: rest) ≠ [] := mt (hempty _).mp (List.cons_ne_nil _ _)
        obtain ⟨entry', rest', hchanged⟩ := List.exists_cons_of_ne_nil hne
        rw [Option.map_some, hchanged, Except.map, hchanged]

end TypeTable
