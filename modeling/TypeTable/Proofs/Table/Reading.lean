import TypeTable.Proofs.Definition.Reading
import TypeTable.Proofs.Tree.Keys
import TypeTable.Table.Reading

/-!
# What is read from a document

`ReadsEntry` says what definition an entry of the block states. The entries of a block are read one
by one into a table, and `Table.addEntries_eq_ok_iff` says what the whole run gives: the definitions
that the entries state, behind those of the table, as long as no name is there twice. That no name
is there twice needs no mention, for it is so in every table.
-/

namespace TypeTable

/-- An entry states a definition: its key reads as the name, and its value as the body. -/
def ReadsEntry (entry : Tree × Tree) (d : Definition) : Prop :=
  entry.1.text? = some d.name ∧ ∃ fields, entry.2.fields? = some fields ∧
    (Definition.ofFields d.name fields).outcome = .ok d

namespace Table

theorem readEntry_eq_ok_iff {entry : Tree × Tree} {d : Definition} :
    (readEntry entry).outcome = .ok d ↔ ReadsEntry entry d := by
  unfold readEntry ReadsEntry
  split
  · next hnone => simp [hnone]
  · next name hname =>
    split
    · next hnone => simp [hnone]
    · next fields hfields =>
      simp only [Traced.outcome_bind_eq_ok_iff, Traced.outcome_report, Traced.outcome_pure,
        hname, hfields, Option.some.injEq, exists_eq_left']
      constructor
      · intro h
        obtain ⟨other, hother, _, _, heq⟩ := h
        cases heq
        have hname := Definition.name_of_ofFields hother
        exact ⟨hname.symm, hname ▸ hother⟩
      · intro h
        obtain ⟨heq, h⟩ := h
        exact ⟨d, heq ▸ h, (), trivial, rfl⟩

/-! ## Looking up and inserting -/

theorem contains_iff {table : Table} {name : String} :
    table.contains name = true ↔ name ∈ table.names :=
  List.contains_iff_mem

theorem get?_eq_some_iff {table : Table} {name : String} {d : Definition} :
    table.get? name = some d ↔ d ∈ table.definitions ∧ d.name = name := by
  constructor
  · intro h
    have hname := List.find?_some h
    exact ⟨List.mem_of_find?_eq_some h, eq_of_beq hname⟩
  · intro h
    obtain ⟨hmem, rfl⟩ := h
    obtain ⟨before, after, heq⟩ := List.append_of_mem hmem
    refine List.find?_eq_some_iff_append.mpr ⟨beq_self_eq_true _, before, after, heq, ?_⟩
    intro earlier hearlier
    have hnodup := table.nodup_names
    rw [heq, List.map_append, List.nodup_append] at hnodup
    have hmem : earlier.name ∈ before.map (·.name) := List.mem_map_of_mem hearlier
    have hne := hnodup.2.2 earlier.name hmem d.name (List.mem_cons_self ..)
    simpa using hne

/-- A definition is put behind the others where this leaves no name twice. -/
theorem insert_eq_ok_iff {table result : Table} {d : Definition} :
    table.insert d = .ok result ↔ result.definitions = table.definitions ++ [d] := by
  unfold insert
  split
  · next hcontains =>
    simp only [reduceCtorEq, false_iff]
    intro h
    have hnodup := result.nodup_names
    rw [h, List.map_append, List.nodup_append] at hnodup
    exact hnodup.2.2 d.name (contains_iff.mp hcontains) d.name (by simp) rfl
  · simp [Table.ext_iff, eq_comm]

/-- A definition is refused where its name is taken. -/
theorem insert_eq_error_iff {table : Table} {d : Definition} {fault : Fault} :
    table.insert d = .error fault ↔
      d.name ∈ table.names ∧ fault = (Fault.Cause.definedTwice d.name).alone := by
  unfold insert
  split
  · next hcontains =>
    rw [Except.error.injEq, and_iff_right (contains_iff.mp hcontains), eq_comm]
  · next hcontains =>
    rw [contains_iff] at hcontains
    simp [hcontains]

/-! ## Entries -/

theorem addEntry_eq_ok_iff {table result : Table} {entry : Tree × Tree} :
    (table.addEntry entry).outcome = .ok result ↔
      ∃ d, ReadsEntry entry d ∧ result.definitions = table.definitions ++ [d] := by
  simp only [addEntry, Traced.outcome_bind_eq_ok_iff, Traced.outcome_lift, readEntry_eq_ok_iff,
    insert_eq_ok_iff]

theorem addEntries_nil (table : Table) : table.addEntries [] = pure table := rfl

theorem addEntries_cons (table : Table) (entry : Tree × Tree) (rest : Fields) :
    table.addEntries (entry :: rest) = table.addEntry entry >>= fun next => next.addEntries rest :=
  rfl

theorem addEntries_append (table : Table) (entries others : Fields) :
    table.addEntries (entries ++ others) =
      table.addEntries entries >>= fun next => next.addEntries others :=
  List.foldlM_append

/-- The first definitions of a table are a table. -/
def take (table : Table) (count : Nat) : Table where
  definitions := table.definitions.take count
  nodup_names := by
    rw [List.map_take]
    exact table.nodup_names.sublist (List.take_sublist ..)

/-- A run over entries puts the definitions that they state behind those of the table. -/
theorem addEntries_eq_ok_iff {table result : Table} {entries : Fields} :
    (table.addEntries entries).outcome = .ok result ↔
      ∃ definitions, List.Forall₂ ReadsEntry entries definitions ∧
        result.definitions = table.definitions ++ definitions := by
  induction entries generalizing table with
  | nil => simp [addEntries_nil, Table.ext_iff, eq_comm]
  | cons entry rest ih =>
    simp only [addEntries_cons, Traced.outcome_bind_eq_ok_iff, addEntry_eq_ok_iff, ih]
    constructor
    · intro ⟨next, ⟨d, hd, hnext⟩, others, hothers, hresult⟩
      exact ⟨d :: others, .cons hd hothers, by rw [hresult, hnext]; simp⟩
    · intro ⟨definitions, hdefinitions, hresult⟩
      cases hdefinitions with
      | @cons _ d _ others hd hothers =>
        -- The table between the two steps is the one that `result` starts with.
        have hnext : (result.take (table.size + 1)).definitions = table.definitions ++ [d] := by
          simp [take, hresult, size, List.take_append, List.take_of_length_le]
        exact ⟨_, ⟨d, hd, hnext⟩, others, hothers, by rw [hresult, hnext]; simp⟩

/-! ## Documents -/

theorem definitionEntries_eq_ok_iff {document : Tree} {entries : Fields} :
    definitionEntries document = .ok entries ↔
      ∃ root block, document.fields? = some root ∧ fieldValue? "definitions" root = some block ∧
        block.fields? = some entries := by
  unfold definitionEntries
  split
  · next hnone =>
    simp only [reduceCtorEq, false_iff]
    intro ⟨root, block, hroot, hblock, _⟩
    rw [hroot, Option.bind_some, hblock] at hnone
    cases hnone
  · next block hblock =>
    obtain ⟨root, hroot, hblock⟩ := Option.bind_eq_some_iff.mp hblock
    simp only [hroot, Option.some.injEq, exists_and_left, exists_eq_left', hblock]
    split
    · next hnone => simp [hnone]
    · next found hfound => rw [hfound, Except.ok.injEq, Option.some.injEq]

/-- The document whose block of definitions has the entries. -/
def ofBlock (entries : Fields) : Tree :=
  .map [(.text "definitions", .map entries)]

theorem definitionEntries_ofBlock (entries : Fields) :
    definitionEntries (ofBlock entries) = .ok entries :=
  definitionEntries_eq_ok_iff.mpr ⟨_, _, rfl, by rw [fieldValue?_cons_text, if_pos rfl], rfl⟩

/-- The outcome for a block of entries is that of the run over them. -/
theorem outcome_ofBlock (entries : Fields) :
    (ofDocument (ofBlock entries)).outcome = (empty.addEntries entries).outcome := by
  rw [ofDocument, definitionEntries_ofBlock]
  simp only [Traced.outcome_bind, Traced.outcome_lift, Traced.outcome_report, Traced.outcome_pure,
    Except.bind]
  cases (empty.addEntries entries).outcome <;> rfl

/-- The table of a document holds the definitions that the entries of its block state. -/
theorem ofDocument_eq_ok_iff {document : Tree} {table : Table} :
    (ofDocument document).outcome = .ok table ↔
      ∃ entries, definitionEntries document = .ok entries ∧
        List.Forall₂ ReadsEntry entries table.definitions := by
  simp only [ofDocument, Traced.outcome_bind_eq_ok_iff, Traced.outcome_lift, Traced.outcome_report,
    Traced.outcome_pure, addEntries_eq_ok_iff]
  constructor
  · intro ⟨entries, hentries, result, ⟨definitions, hdefinitions, hresult⟩, _, _, heq⟩
    cases heq
    exact ⟨entries, hentries, hresult ▸ hdefinitions⟩
  · intro ⟨entries, hentries, hdefinitions⟩
    exact ⟨entries, hentries, table, ⟨_, hdefinitions, rfl⟩, (), trivial, rfl⟩

/-- The keys of entries read as the names of the definitions that they state. -/
theorem readAs_of_readsEntries {entries : Fields} {definitions : List Definition}
    (h : List.Forall₂ ReadsEntry entries definitions) :
    Tree.ReadAs (entries.map (·.1)) (definitions.map (·.name)) :=
  Tree.readAs_of_forall₂ (fun _ _ hstates => hstates.1) h

end Table

end TypeTable
