import TypeTable.Definition.Reading
import TypeTable.Table.Basic

/-!
# Reading a document

The definitions of a document are the entries of its block `definitions`. They are read in order,
and the first fault ends the reading. That a name is taken is seen only after its body was read.
-/

namespace TypeTable.Table

open Fault (Cause)

/-- The entries of the block of definitions. -/
def definitionEntries (document : Tree) : Except Fault Fields :=
  match document.fields?.bind (fieldValue? "definitions") with
  | none => .error Cause.noDefinitions.alone
  | some block =>
    match block.fields? with
    | none => .error Cause.definitionsNotMapping.alone
    | some entries => .ok entries

/-- The definition that an entry of the block states. -/
def readEntry (entry : Tree × Tree) : Traced Fault Definition :=
  match entry.1.text? with
  | none => Traced.ofExcept (.error (Cause.definitionNameNotText entry.1.describe).alone)
  | some name =>
    match entry.2.fields? with
    | none =>
      Traced.ofExcept (.error ((Cause.definitionNotMapping entry.2.describe).within name))
    | some fields => do
      let definition ← Definition.ofFields name fields
      Traced.report (.defined definition.kind name)
      return definition

/-- Adds the definition that an entry states to a table. -/
def addEntry (table : Table) (entry : Tree × Tree) : Traced Fault Table := do
  let definition ← readEntry entry
  table.insert definition

/-- Adds the definitions that entries state, in order. -/
def addEntries (table : Table) (entries : Fields) : Traced Fault Table :=
  entries.foldlM addEntry table

/-- The table of the definitions of a document. -/
def ofDocument (document : Tree) : Traced Fault Table := do
  let entries ← definitionEntries document
  let table ← addEntries empty entries
  Traced.report (.finished table.size)
  return table

end TypeTable.Table
