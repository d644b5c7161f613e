import TypeTable.Proofs.Definition.Grammar
import TypeTable.Proofs.Table.Reading

/-!
# The grammar of documents

A document conforms when its root has a block of definitions whose names are all different and whose
bodies conform (`Grammar.Document`). `Table.exists_ofDocument_iff` says that these documents, and no
others, have a table.
-/

namespace TypeTable

/-- The documents that state a table: behind the untagged key `definitions` stands a mapping whose
keys read as different names and whose values read as bodies that conform. -/
inductive Grammar.Document : Tree → Prop
  | block {document block : Tree} {root entries : Fields} {names : List String}
    (hroot : document.fields? = some root) (hblock : fieldValue? "definitions" root = some block)
    (hentries : block.fields? = some entries) (hnames : Tree.ReadAs (entries.map (·.1)) names)
    (distinct : names.Nodup)
    (bodies : ∀ entry ∈ entries, ∃ fields, entry.2.fields? = some fields ∧ Grammar.Body fields) :
    Grammar.Document document

namespace Table

/-- An entry states a definition when its key reads as a name and its value as a body that
conforms. -/
theorem exists_readsEntry_iff {entry : Tree × Tree} :
    (∃ d, ReadsEntry entry d) ↔
      (∃ name, entry.1.text? = some name) ∧
        ∃ fields, entry.2.fields? = some fields ∧ Grammar.Body fields := by
  constructor
  · intro ⟨d, hname, fields, hfields, hd⟩
    exact ⟨⟨d.name, hname⟩, fields, hfields, Definition.exists_ofFields_iff.mp ⟨d, hd⟩⟩
  · intro ⟨⟨name, hname⟩, fields, hfields, hbody⟩
    obtain ⟨d, hd⟩ := Definition.exists_ofFields_iff.mpr hbody
    obtain rfl : d.name = name := Definition.name_of_ofFields hd
    exact ⟨d, hname, fields, hfields, hd⟩

/-- A document has a table exactly when it conforms to the grammar. -/
theorem exists_ofDocument_iff (document : Tree) :
    (∃ table, (ofDocument document).outcome = .ok table) ↔ Grammar.Document document := by
  constructor
  · intro ⟨table, h⟩
    obtain ⟨entries, hentries, hdefinitions⟩ := ofDocument_eq_ok_iff.mp h
    obtain ⟨root, block, hroot, hblock, hentries⟩ := definitionEntries_eq_ok_iff.mp hentries
    refine .block hroot hblock hentries (readAs_of_readsEntries hdefinitions) table.nodup_names
      fun entry hentry => ?_
    obtain ⟨d, -, hd⟩ := hdefinitions.exists_of_mem_left hentry
    exact (exists_readsEntry_iff.mp ⟨d, hd⟩).2
  · intro h
    cases h with
    | @block block root entries names hroot hblock hentries hnames hnodup hbodies =>
      obtain ⟨definitions, hdefinitions⟩ :
          ∃ definitions, List.Forall₂ ReadsEntry entries definitions := by
        refine List.exists_forall₂_iff.mpr fun entry hentry => exists_readsEntry_iff.mpr ⟨?_, ?_⟩
        · exact Tree.exists_readAs_iff.mp ⟨names, hnames⟩ entry.1 (List.mem_map_of_mem hentry)
        · exact hbodies entry hentry
      have hdistinct : (definitions.map (·.name)).Nodup :=
        hnames.unique (readAs_of_readsEntries hdefinitions) ▸ hnodup
      refine ⟨⟨definitions, hdistinct⟩, ofDocument_eq_ok_iff.mpr ⟨entries, ?_, hdefinitions⟩⟩
      exact definitionEntries_eq_ok_iff.mpr ⟨root, block, hroot, hblock, hentries⟩

end Table

end TypeTable
