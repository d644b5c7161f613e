import TypeTable.Proofs.Definition.Distinct
import TypeTable.Proofs.Table.Reading

/-!
# Documents that state no property twice

In a document with `Table.DistinctProperties` no body of a definition states a property twice, and
no body written in place in one does.
-/

namespace TypeTable.Table

/-- No body of a definition states a property twice. -/
def DistinctProperties (document : Tree) : Prop :=
  ∀ entries entry fields, definitionEntries document = .ok entries → entry ∈ entries →
    entry.2.fields? = some fields → TypeTable.DistinctProperties fields

theorem distinctProperties_ofBlock {entries : Fields}
    (h : ∀ entry ∈ entries, ∀ fields, entry.2.fields? = some fields →
      TypeTable.DistinctProperties fields) : DistinctProperties (ofBlock entries) := by
  intro found entry fields hfound hentry hfields
  cases (definitionEntries_ofBlock entries).symm.trans hfound
  exact h entry hentry fields hfields

end TypeTable.Table
