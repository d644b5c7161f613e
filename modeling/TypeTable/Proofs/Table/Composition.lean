import TypeTable.Proofs.Table.Reading

/-!
# Blocks of definitions, put together

What a block of entries gives, behind the entries of another block (`Table.ofDocument_append`). A
fault of the first block stays. Behind a block without fault the second one is read by itself,
except that it may not take a name of the first, and the error is that of its first faulty entry.

The run over entries knows the earlier ones by its table, whose names their keys read as.
-/

namespace TypeTable

/-- What is wrong with an entry by itself: its key is not a text, its value is not a mapping, or
not a body of its name. -/
inductive ReadFault (entry : Tree × Tree) : Fault → Prop
  | nameNotText : entry.1.text? = none →
      ReadFault entry (Fault.Cause.definitionNameNotText entry.1.describe).alone
  | bodyNotMapping {name : String} : entry.1.text? = some name → entry.2.fields? = none →
      ReadFault entry ((Fault.Cause.definitionNotMapping entry.2.describe).within name)
  | body {name : String} {fields : Fields} {fault : Fault} :
      entry.1.text? = some name → entry.2.fields? = some fields →
      (Definition.ofFields name fields).outcome = .error fault → ReadFault entry fault

/-- What is wrong with an entry behind others: it is faulty by itself, or it states a definition
whose name another key reads as. -/
inductive EntryFault (earlier : Fields) (entry : Tree × Tree) : Fault → Prop
  | own {fault : Fault} : ReadFault entry fault → EntryFault earlier entry fault
  | repeated {d : Definition} {other : Tree × Tree} :
      ReadsEntry entry d → other ∈ earlier → other.1.text? = some d.name →
      EntryFault earlier entry (Fault.Cause.definedTwice d.name).alone

/-- What is wrong with the first faulty one of entries behind others. -/
inductive FirstFault : Fields → Fields → Fault → Prop
  | here {earlier rest : Fields} {entry : Tree × Tree} {fault : Fault} :
      EntryFault earlier entry fault → FirstFault earlier (entry :: rest) fault
  | later {earlier rest : Fields} {entry : Tree × Tree} {fault : Fault} :
      (∀ other, ¬ EntryFault earlier entry other) → FirstFault (earlier ++ [entry]) rest fault →
      FirstFault earlier (entry :: rest) fault

theorem firstFault_cons_iff {earlier rest : Fields} {entry : Tree × Tree} {fault : Fault} :
    FirstFault earlier (entry :: rest) fault ↔ EntryFault earlier entry fault ∨
      (∀ other, ¬ EntryFault earlier entry other) ∧ FirstFault (earlier ++ [entry]) rest fault := by
  constructor
  · intro h
    cases h with
    | here hfault => exact .inl hfault
    | later hnone hrest => exact .inr ⟨hnone, hrest⟩
  · intro h
    rcases h with hfault | ⟨hnone, hrest⟩
    · exact .here hfault
    · exact .later hnone hrest

namespace Table

/-! ## One entry -/

theorem readEntry_eq_error_iff {entry : Tree × Tree} {fault : Fault} :
    (readEntry entry).outcome = .error fault ↔ ReadFault entry fault := by
  unfold readEntry
  split
  · next hkey =>
    constructor
    · intro h
      cases h
      exact .nameNotText hkey
    · intro h
      cases h with
      | nameNotText => rfl
      | bodyNotMapping hname => cases hkey.symm.trans hname
      | body hname => cases hkey.symm.trans hname
  · next name hkey =>
    split
    · next hvalue =>
      constructor
      · intro h
        cases h
        exact .bodyNotMapping hkey hvalue
      · intro h
        cases h with
        | nameNotText hnone => cases hkey.symm.trans hnone
        | bodyNotMapping hname =>
          cases hkey.symm.trans hname
          rfl
        | body _ hfields => cases hvalue.symm.trans hfields
    · next fields hvalue =>
      rw [Traced.outcome_bind_eq_error_iff]
      constructor
      · intro h
        rcases h with h | ⟨d, _, h⟩
        · exact .body hkey hvalue h
        · cases h
      · intro h
        cases h with
        | nameNotText hnone => cases hkey.symm.trans hnone
        | bodyNotMapping _ hnone => cases hvalue.symm.trans hnone
        | body hname hfields hfault =>
          cases hkey.symm.trans hname
          cases hvalue.symm.trans hfields
          exact .inl hfault

/-- The names of a table are those that the keys of the earlier entries read as. -/
def Follows (table : Table) (earlier : Fields) : Prop :=
  Tree.ReadAs (earlier.map (·.1)) table.names

section Step

variable {table next : Table} {earlier : Fields} {entry : Tree × Tree} {fault : Fault}

theorem Follows.mem_names_iff (h : table.Follows earlier) {name : String} :
    name ∈ table.names ↔ ∃ other ∈ earlier, other.1.text? = some name := by
  rw [Tree.ReadAs.mem_iff h]
  simp only [List.mem_map, exists_exists_and_eq_and]

theorem Follows.addEntry (h : table.Follows earlier)
    (hnext : (table.addEntry entry).outcome = .ok next) : next.Follows (earlier ++ [entry]) := by
  obtain ⟨d, ⟨hkey, _⟩, hdefinitions⟩ := addEntry_eq_ok_iff.mp hnext
  rw [Follows, names, hdefinitions, List.map_append, List.map_append]
  exact (Tree.readAs_append h).mpr (congrArg (fun name => [name]) hkey)

theorem Follows.addEntry_eq_error_iff (h : table.Follows earlier) :
    (table.addEntry entry).outcome = .error fault ↔ EntryFault earlier entry fault := by
  rw [Table.addEntry, Traced.outcome_bind_eq_error_iff, readEntry_eq_error_iff]
  simp only [readEntry_eq_ok_iff, Traced.outcome_lift, insert_eq_error_iff, h.mem_names_iff]
  constructor
  · intro hfault
    rcases hfault with hown | ⟨d, hd, ⟨other, hother, hname⟩, heq⟩
    · exact .own hown
    · rw [heq]
      exact .repeated hd hother hname
  · intro hfault
    cases hfault with
    | own hown => exact .inl hown
    | repeated hd hother hname => exact .inr ⟨_, hd, ⟨_, hother, hname⟩, rfl⟩

end Step

/-! ## A run over entries -/

theorem follows_empty : empty.Follows [] := rfl

theorem Follows.addEntries {table result : Table} {earlier entries : Fields}
    (h : table.Follows earlier) (hresult : (table.addEntries entries).outcome = .ok result) :
    result.Follows (earlier ++ entries) := by
  induction entries generalizing table earlier with
  | nil =>
    cases hresult
    rwa [List.append_nil]
  | cons entry rest ih =>
    rw [addEntries_cons, Traced.outcome_bind_eq_ok_iff] at hresult
    obtain ⟨next, hnext, hrest⟩ := hresult
    rw [List.append_cons]
    exact ih (h.addEntry hnext) hrest

/-- A run ends in the error of the first faulty entry. -/
theorem Follows.addEntries_eq_error_iff {table : Table} {earlier entries : Fields} {fault : Fault}
    (h : table.Follows earlier) :
    (table.addEntries entries).outcome = .error fault ↔ FirstFault earlier entries fault := by
  induction entries generalizing table earlier with
  | nil =>
    constructor
    · intro hfault
      cases hfault
    · intro hfault
      cases hfault
  | cons entry rest ih =>
    rw [addEntries_cons, Traced.outcome_bind_eq_error_iff, h.addEntry_eq_error_iff,
      firstFault_cons_iff]
    refine or_congr_right ?_
    constructor
    · intro ⟨next, hnext, hrest⟩
      refine ⟨fun other hother => ?_, (ih (h.addEntry hnext)).mp hrest⟩
      cases hnext.symm.trans (h.addEntry_eq_error_iff.mpr hother)
    · intro ⟨hnone, hrest⟩
      cases hnext : (table.addEntry entry).outcome with
      | error other => exact absurd (h.addEntry_eq_error_iff.mp hnext) (hnone other)
      | ok next => exact ⟨next, rfl, (ih (h.addEntry hnext)).mpr hrest⟩

/-! ## Two blocks -/

/-- The definitions of a table behind those of another one, where they share no name. -/
def append (table other : Table) (h : ∀ name ∈ other.names, name ∉ table.names) : Table where
  definitions := table.definitions ++ other.definitions
  nodup_names := by
    rw [List.map_append, List.nodup_append]
    refine ⟨table.nodup_names, other.nodup_names, fun name hname taken htaken heq => ?_⟩
    exact h taken htaken (heq ▸ hname)

/-- What a run gives behind a table is what it gives by itself, if it takes no name of the table. -/
theorem addEntries_eq_ok_iff_append {table result : Table} {entries : Fields} :
    (table.addEntries entries).outcome = .ok result ↔
      ∃ other, ∃ h : ∀ name ∈ other.names, name ∉ table.names,
        (empty.addEntries entries).outcome = .ok other ∧ result = table.append other h := by
  simp only [addEntries_eq_ok_iff, Table.ext_iff]
  constructor
  · intro ⟨definitions, hread, hresult⟩
    have hnodup := result.nodup_names
    rw [hresult, List.map_append, List.nodup_append] at hnodup
    obtain ⟨-, hnew, hdisjoint⟩ := hnodup
    refine ⟨⟨definitions, hnew⟩, fun name hname htaken => ?_, ⟨definitions, hread, rfl⟩, hresult⟩
    exact hdisjoint name htaken name hname rfl
  · intro ⟨other, h, ⟨definitions, hread, hother⟩, hresult⟩
    exact ⟨definitions, hread, hresult.trans (congrArg (table.definitions ++ ·) hother)⟩

/-- A fault of the first block is the fault of both. Where the first block has none, the definitions
of the second one come behind its own if no name is in both, and else the fault of both is that of
the first faulty entry of the second block. -/
theorem ofDocument_append (xs ys : Fields) :
    (∀ fault, (ofDocument (ofBlock xs)).outcome = .error fault →
      (ofDocument (ofBlock (xs ++ ys))).outcome = .error fault) ∧
    ∀ table, (ofDocument (ofBlock xs)).outcome = .ok table →
      (∀ result, (ofDocument (ofBlock (xs ++ ys))).outcome = .ok result ↔
        ∃ other, ∃ h : ∀ name ∈ other.names, name ∉ table.names,
          (ofDocument (ofBlock ys)).outcome = .ok other ∧ result = table.append other h) ∧
      ∀ fault, (ofDocument (ofBlock (xs ++ ys))).outcome = .error fault ↔
        FirstFault xs ys fault := by
  simp only [outcome_ofBlock]
  constructor
  · intro fault hfault
    rw [addEntries_append, Traced.outcome_bind_eq_error_iff]
    exact .inl hfault
  · intro table htable
    have hrun : (empty.addEntries (xs ++ ys)).outcome = (table.addEntries ys).outcome := by
      rw [addEntries_append, Traced.outcome_bind, htable]
      rfl
    rw [hrun]
    refine ⟨fun _ => addEntries_eq_ok_iff_append, fun _ => ?_⟩
    exact (follows_empty.addEntries htable).addEntries_eq_error_iff

end Table

end TypeTable
