import TypeTable.Proofs.Definition.Writing
import TypeTable.Proofs.Table.Reading

/-!
# The tables that documents have

`Table.toTree` writes a table as a document. Reading gives a well-formed table back, and gives no
other tables: `Table.ofDocument_image`.
-/

namespace TypeTable.Table

/-- A table is well formed when its definitions are. That their names, by which the table finds them,
are all different holds of every table. -/
def WellFormed (table : Table) : Prop :=
  ∀ d ∈ table.definitions, d.WellFormed

/-- The entries that state the definitions of a table. -/
def toFields (table : Table) : Fields :=
  table.definitions.map fun d => (.text d.name, .map d.toFields)

/-- The document that states a table. -/
def toTree (table : Table) : Tree :=
  ofBlock table.toFields

theorem wellFormed_of_ofDocument {document : Tree} {table : Table}
    (h : (ofDocument document).outcome = .ok table) : table.WellFormed := by
  obtain ⟨entries, -, hdefinitions⟩ := ofDocument_eq_ok_iff.mp h
  intro d hd
  obtain ⟨entry, -, -, fields, -, hread⟩ := hdefinitions.exists_of_mem_right hd
  exact Definition.wellFormed_of_ofFields hread

theorem readsEntries_toFields {table : Table} (h : table.WellFormed) :
    List.Forall₂ ReadsEntry table.toFields table.definitions := by
  refine List.forall₂_map_left_iff.mpr (List.forall₂_same.mpr fun d hd => ?_)
  exact ⟨rfl, d.toFields, rfl, Definition.ofFields_toFields (h d hd)⟩

theorem ofDocument_toTree {table : Table} (h : table.WellFormed) :
    (ofDocument table.toTree).outcome = .ok table :=
  ofDocument_eq_ok_iff.mpr ⟨_, definitionEntries_ofBlock _, readsEntries_toFields h⟩

theorem distinctKeys_toTree {table : Table} (h : table.WellFormed) :
    table.toTree.DistinctKeys := by
  have hblock : (Tree.map table.toFields).DistinctKeys := by
    refine Tree.distinctKeys_of_texts (by simp [toFields]) table.nodup_names ?_
    intro entry hentry
    obtain ⟨d, hd, rfl⟩ := List.mem_map.mp hentry
    exact Definition.distinctKeys_toFields (h d hd)
  have hkeys : [((.text "definitions" : Tree), Tree.map table.toFields)].map (·.1)
      = ["definitions"].map .text := rfl
  refine Tree.distinctKeys_of_texts hkeys (by decide) ?_
  intro entry hentry
  exact List.mem_singleton.mp hentry ▸ hblock

/-- The tables that documents have are the well-formed ones, and each of these is the table of a
document without equal keys. -/
theorem ofDocument_image (table : Table) :
    (∀ document, (ofDocument document).outcome = .ok table → table.WellFormed) ∧
      (table.WellFormed →
        ∃ document : Tree, document.DistinctKeys ∧ (ofDocument document).outcome = .ok table) :=
  ⟨fun _ h => wellFormed_of_ofDocument h,
    fun h => ⟨table.toTree, distinctKeys_toTree h, ofDocument_toTree h⟩⟩

end TypeTable.Table
