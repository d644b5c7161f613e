import TypeTable.Proofs.Tree.Views
import TypeTable.Tree.Equality

/-!
# Keys of mappings

The trees of documents never hold a mapping with two equal keys (`Tree.DistinctKeys`). Keys that are
texts are told apart by these (`Tree.distinctKeys_of_texts`), and a field under such a key is looked
up with `fieldValue?_cons_text` and `fieldValue?_append`. Where the values change and the keys stay,
it is found as before (`fieldValue?_map`).
-/

namespace TypeTable

namespace Tree

/-- No mapping in the tree has two equal keys. -/
inductive DistinctKeys : Tree → Prop
  | null : DistinctKeys .null
  | bool (value : Bool) : DistinctKeys (.bool value)
  | int (value : Int) : DistinctKeys (.int value)
  | float (value : Binary64) : DistinctKeys (.float value)
  | text (value : String) : DistinctKeys (.text value)
  | seq {items : List Tree} (each : ∀ item ∈ items, DistinctKeys item) : DistinctKeys (.seq items)
  | map {entries : Fields} (distinct : entries.Pairwise fun a b => a.1.same b.1 = false)
    (keys : ∀ entry ∈ entries, DistinctKeys entry.1)
    (values : ∀ entry ∈ entries, DistinctKeys entry.2) : DistinctKeys (.map entries)
  | tagged {tag : Tag} {value : Tree} (h : DistinctKeys value) : DistinctKeys (.tagged tag value)

theorem same_text (a b : String) : (Tree.text a).same (.text b) = (a == b) := by
  rw [same]

/-- A mapping whose keys are different texts has no two equal keys. -/
theorem distinctKeys_of_texts {entries : Fields} {names : List String}
    (hkeys : entries.map (·.1) = names.map .text) (hnodup : names.Nodup)
    (hvalues : ∀ entry ∈ entries, DistinctKeys entry.2) : DistinctKeys (.map entries) := by
  refine .map ?_ (fun entry hentry => ?_) hvalues
  · have hpairwise : (entries.map (·.1)).Pairwise fun a b => a.same b = false := by
      rw [hkeys, List.pairwise_map]
      exact hnodup.imp fun hne => by rw [same_text, beq_false_of_ne hne]
    exact List.pairwise_map.mp hpairwise
  · obtain ⟨name, -, hname⟩ := List.mem_map.mp (hkeys ▸ List.mem_map_of_mem hentry)
    exact hname ▸ .text name

theorem DistinctKeys.nil : DistinctKeys (.map []) :=
  .map .nil (List.forall_mem_nil _) (List.forall_mem_nil _)

/-- A mapping with one more entry, under a text that is no key of it. -/
theorem DistinctKeys.cons {name : String} {value : Tree} {rest : Fields}
    (hnew : ∀ entry ∈ rest, (Tree.text name).same entry.1 = false) (hvalue : value.DistinctKeys)
    (hrest : DistinctKeys (.map rest)) : DistinctKeys (.map ((.text name, value) :: rest)) := by
  cases hrest with
  | map distinct keys values =>
    exact .map (.cons hnew distinct) (List.forall_mem_cons.mpr ⟨.text name, keys⟩)
      (List.forall_mem_cons.mpr ⟨hvalue, values⟩)

theorem distinctKeys_texts (texts : List String) : DistinctKeys (.seq (texts.map .text)) := by
  refine .seq fun item hitem => ?_
  obtain ⟨text, -, rfl⟩ := List.mem_map.mp hitem
  exact .text text

end Tree

@[simp] theorem fieldValue?_cons_text (name key : String) (value : Tree) (rest : Fields) :
    fieldValue? name ((.text key, value) :: rest) =
      if key = name then some value else fieldValue? name rest := by
  unfold fieldValue?
  by_cases h : key = name
  · rw [List.find?_cons_of_pos (by simpa [Tree.isText] using h), if_pos h, Option.map_some]
  · rw [List.find?_cons_of_neg (by simpa [Tree.isText] using h), if_neg h]

theorem fieldValue?_append (name : String) (fields others : Fields) :
    fieldValue? name (fields ++ others) =
      (fieldValue? name fields).or (fieldValue? name others) := by
  unfold fieldValue?
  rw [List.find?_append]
  cases fields.find? fun entry => entry.1.isText name <;> rfl

theorem fieldValue?_cons (name : String) (entry : Tree × Tree) (rest : Fields) :
    fieldValue? name (entry :: rest) =
      if entry.1.isText name then some entry.2 else fieldValue? name rest := by
  unfold fieldValue?
  rw [List.find?_cons]
  cases entry.1.isText name <;> rfl

/-- A field is found as before where the value under each key is changed. -/
theorem fieldValue?_map (change : Tree → Tree → Tree) (name : String) (fields : Fields) :
    fieldValue? name (fields.map fun entry => (entry.1, change entry.1 entry.2)) =
      (fieldValue? name fields).map (change (.text name)) := by
  induction fields with
  | nil => rfl
  | cons entry rest ih =>
    rw [List.map_cons, fieldValue?_cons, fieldValue?_cons, ih]
    cases hkey : entry.1.isText name with
    | true => rw [if_pos rfl, if_pos rfl, Option.map_some, Tree.isText_iff.mp hkey]
    | false => rw [if_neg Bool.false_ne_true, if_neg Bool.false_ne_true]

/-- And so is the first key of a sort. -/
theorem find?_key_map (change : Tree → Tree → Tree) (test : Tree → Bool) (fields : Fields) :
    ((fields.map fun entry => (entry.1, change entry.1 entry.2)).find?
        fun entry => test entry.1).map (·.1) =
      (fields.find? fun entry => test entry.1).map (·.1) := by
  rw [List.find?_map, Option.map_map]
  rfl

end TypeTable
