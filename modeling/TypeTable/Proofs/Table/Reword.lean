import TypeTable.Proofs.Definition.Reword
import TypeTable.Proofs.Table.Reading
import TypeTable.Proofs.Tree.Change

/-!
# Reading reworded documents

A document whose definitions are in other words has the same table in these words, or the same
fault: `Table.outcome_ofDocument_rewordDocument`. In particular it does not matter to what names the
references of a document refer (`Table.ofDocument_retarget`), and what its descriptions say
(`Table.ofDocument_redescribe`).
-/

namespace TypeTable

/-! ## Changing the definitions of a document -/

namespace Table

/-- A document with each entry of its block of definitions changed. -/
def overDefinitions (change : Tree × Tree → Tree × Tree) (document : Tree) : Tree :=
  document.overFields fun root => root.map fun entry =>
    (entry.1, if entry.1.isText "definitions" then entry.2.overFields (List.map change)
      else entry.2)

theorem definitionEntries_overDefinitions (change : Tree × Tree → Tree × Tree) (document : Tree) :
    definitionEntries (overDefinitions change document) =
      (definitionEntries document).map (List.map change) := by
  unfold definitionEntries overDefinitions
  rw [Tree.fields?_overFields]
  cases document.fields? with
  | none => rfl
  | some root =>
    simp only [Option.map_some, Option.bind_some]
    rw [fieldValue?_map fun key value =>
      if key.isText "definitions" then value.overFields (List.map change) else value]
    cases fieldValue? "definitions" root with
    | none => rfl
    | some block =>
      have hfields : (block.overFields (List.map change)).fields? =
          block.fields?.map (List.map change) := block.fields?_overFields _
      simp only [Option.map_some, Tree.isText, beq_self_eq_true, if_true, hfields]
      cases block.fields? <;> rfl

/-! ## Reworded tables and documents -/

section Reword

variable (w : Rewording)

/-- A table in other words. -/
def reword (table : Table) : Table where
  definitions := table.definitions.map (Definition.reword w)
  nodup_names := by
    rw [List.map_map]
    exact table.nodup_names

/-- An entry of the block of definitions in other words. Its name stays as it is. -/
def rewordEntry (entry : Tree × Tree) : Tree × Tree :=
  (entry.1, entry.2.overFields (Tree.rewordBody w))

/-- A document whose definitions are in other words. -/
def rewordDocument (document : Tree) : Tree :=
  overDefinitions (rewordEntry w) document

theorem outcome_readEntry_rewordEntry (entry : Tree × Tree) :
    (readEntry (rewordEntry w entry)).outcome =
      (readEntry entry).outcome.map (Definition.reword w) := by
  simp only [readEntry, rewordEntry]
  cases entry.1.text? with
  | none => rfl
  | some name =>
    rw [Tree.fields?_overFields]
    cases hfields : entry.2.fields? with
    | none =>
      rw [Tree.overFields_eq_self hfields]
      rfl
    | some fields =>
      exact Traced.outcome_bind_map (Definition.outcome_ofFields_rewordBody w name fields)
        fun d => rfl

theorem names_reword (table : Table) : (table.reword w).names = table.names := by
  rw [names, reword, List.map_map]
  rfl

theorem insert_reword (table : Table) (d : Definition) :
    (table.reword w).insert (d.reword w) = (table.insert d).map (reword w) := by
  have hcontains : (table.reword w).contains (d.reword w).name = table.contains d.name := by
    rw [contains, names_reword, Definition.name_reword, contains]
  unfold insert
  by_cases htaken : table.contains d.name = true
  · rw [dif_pos htaken, dif_pos (hcontains.trans htaken)]
    rfl
  · rw [dif_neg htaken, dif_neg (hcontains ▸ htaken)]
    refine congrArg Except.ok (Table.ext ?_)
    show table.definitions.map _ ++ [d].map _ = (table.definitions ++ [d]).map _
    rw [List.map_append]

theorem outcome_addEntries_reword (table : Table) (entries : Fields) :
    ((table.reword w).addEntries (entries.map (rewordEntry w))).outcome =
      (table.addEntries entries).outcome.map (reword w) := by
  induction entries generalizing table with
  | nil => rfl
  | cons entry rest ih =>
    rw [List.map_cons, addEntries_cons, addEntries_cons]
    refine Traced.outcome_bind_map (g := reword w) ?_ ih
    exact Traced.outcome_bind_map (outcome_readEntry_rewordEntry w entry) (insert_reword w table)

/-- A document in other words has the same table in these words, or the same fault. -/
theorem outcome_ofDocument_rewordDocument (document : Tree) :
    (ofDocument (rewordDocument w document)).outcome =
      (ofDocument document).outcome.map (reword w) := by
  unfold ofDocument rewordDocument
  rw [definitionEntries_overDefinitions]
  refine Traced.outcome_bind_map (g := List.map (rewordEntry w)) rfl fun entries => ?_
  refine Traced.outcome_bind_map (outcome_addEntries_reword w empty entries) fun table => rfl

end Reword

/-- What the references of a document refer to does not matter to reading it. With other targets,
whether two of them become one or not, the document has the same table with these targets, or the
same fault. Names and descriptions stay, those of types written in place as well. -/
theorem ofDocument_retarget (f : String → String) (document : Tree) :
    (∀ table, (ofDocument document).outcome = .ok table →
      (ofDocument (rewordDocument { target := f } document)).outcome =
        .ok (table.reword { target := f })) ∧
    (∀ fault, (ofDocument document).outcome = .error fault →
      (ofDocument (rewordDocument { target := f } document)).outcome = .error fault) ∧
    ∀ header : Header, header.reword { target := f } = header := by
  have houtcome := outcome_ofDocument_rewordDocument { target := f } document
  refine ⟨fun table htable => ?_, fun fault hfault => ?_, fun header => ?_⟩
  · rw [houtcome, htable]
    rfl
  · rw [houtcome, hfault]
    rfl
  · obtain ⟨name, description⟩ := header
    cases description <;> rfl

/-- What the descriptions of a document say does not matter to reading it. With each of them changed
at every depth, the document has the same table with these descriptions, or the same fault. Nothing
else in the document or in the table is changed: references stay, and so do definitions and
properties that are called `description`, whose keys are names. -/
theorem ofDocument_redescribe (g : String → String) (document : Tree) :
    (∀ table, (ofDocument document).outcome = .ok table →
      (ofDocument (rewordDocument { description := g } document)).outcome =
        .ok (table.reword { description := g })) ∧
    (∀ fault, (ofDocument document).outcome = .error fault →
      (ofDocument (rewordDocument { description := g } document)).outcome = .error fault) ∧
    (∀ text, Rewording.reference { description := g } text = text) ∧
    (∀ header : Header, header.reword { description := g } =
      { header with description := header.description.map g }) ∧
    ∀ target, (TypeExpr.named target).reword { description := g } = .named target := by
  have houtcome := outcome_ofDocument_rewordDocument { description := g } document
  refine ⟨fun table htable => ?_, fun fault hfault => ?_, fun text => ?_, fun header => rfl,
    fun target => rfl⟩
  · rw [houtcome, htable]
    rfl
  · rw [houtcome, hfault]
    rfl
  · exact Rewording.reference_eq_self (fun target => rfl) text

/-- The entry of the property called `description` stays, and the description in it is changed. -/
example (g : String → String) : Tree.rewordBody { description := g }
    [(.text "properties", .map [(.text "description", .map [(.text "type", .text "string"),
      (.text "description", .text "a")])])] =
    [(.text "properties", .map [(.text "description", .map [(.text "type", .text "string"),
      (.text "description", .text (g "a"))])])] := rfl

end Table

end TypeTable
