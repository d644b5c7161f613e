import TypeTable.Proofs.Definition.Bare
import TypeTable.Proofs.Table.Reading

/-!
# Reading bare documents

Tags on the values of a document are looked through wherever it is read, descriptions apart. So a
document and the bare one have the same table, or both have none and the faults have one context:
`Table.ofDocument_bare`.
-/

namespace TypeTable.Table

theorem definitionEntries_bare (document : Tree) :
    definitionEntries document.bare = (definitionEntries document).map Tree.bareEntries := by
  unfold definitionEntries
  rw [Tree.fields?_bare]
  cases document.fields? with
  | none => rfl
  | some root =>
    simp only [Option.map_some, Option.bind_some, fieldValue?_bareEntries (by decide :
      "definitions" ≠ "description") root]
    cases fieldValue? "definitions" root with
    | none => rfl
    | some block =>
      simp only [Option.map_some, Tree.fields?_bare]
      cases block.fields? <;> rfl

/-- The body of a definition called `description` may stay as it is; any other is bare. -/
theorem mapError_readEntry_bare (key value : Tree) :
    (readEntry (key, Tree.bareUnder key value)).mapError Fault.context =
      (readEntry (key, value)).mapError Fault.context := by
  unfold Tree.bareUnder
  split
  · rfl
  · simp only [readEntry]
    cases key.text? with
    | none => rfl
    | some name =>
      rw [Tree.fields?_bare]
      cases value.fields? with
      | none => rfl
      | some fields =>
        simp only [Option.map_some, Traced.mapError_bind, Definition.mapError_ofFields_bare]

theorem mapError_addEntries_bare (table : Table) (entries : Fields) :
    (table.addEntries (Tree.bareEntries entries)).mapError Fault.context =
      (table.addEntries entries).mapError Fault.context := by
  induction entries generalizing table with
  | nil => rfl
  | cons entry rest ih =>
    have hentry := mapError_readEntry_bare entry.1 entry.2
    unfold Tree.bareUnder at hentry
    rw [Tree.bareEntries]
    simp only [addEntries_cons, addEntry, Traced.mapError_bind, hentry, ih]

/-- A document and the bare one are read with the same events, and give the same table or faults in
the same context. -/
theorem mapError_ofDocument_bare (document : Tree) :
    (ofDocument document.bare).mapError Fault.context =
      (ofDocument document).mapError Fault.context := by
  unfold ofDocument
  rw [definitionEntries_bare]
  cases definitionEntries document with
  | error fault => rfl
  | ok entries =>
    simp only [Except.map, Traced.lift_ok, pure_bind, Traced.mapError_bind,
      mapError_addEntries_bare]

/-- A document and the bare one have the same table, or both have none and the two faults are in the
same context. -/
theorem ofDocument_bare (document : Tree) :
    (∃ table, (ofDocument document).outcome = .ok table ∧
      (ofDocument document.bare).outcome = .ok table) ∨
    ∃ fault other, (ofDocument document).outcome = .error fault ∧
      (ofDocument document.bare).outcome = .error other ∧ fault.context = other.context :=
  Traced.outcomes_of_mapError_eq Fault.context (mapError_ofDocument_bare document).symm

end TypeTable.Table
