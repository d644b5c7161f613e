import TypeTable.Proofs.Definition.Faults
import TypeTable.Proofs.Table.Composition

/-!
# Where a fault of a document is

A document that is not read has a fault of its block of definitions as a whole (`BlockFault`), which
belongs to no definition, or a fault in a definition of the block, which bears the name of this
definition or of a body inside it: `Table.context_of_fault`.
-/

namespace TypeTable.Table

open Fault (Cause)

/-! ## When reading fails -/

/-- A run over entries ends in an error at an entry that is not added to the table of those before.
-/
theorem addEntries_eq_error_iff {table : Table} {entries : Fields} {fault : Fault} :
    (table.addEntries entries).outcome = .error fault ↔
      ∃ before entry after next, entries = before ++ entry :: after ∧
        (table.addEntries before).outcome = .ok next ∧
        (next.addEntry entry).outcome = .error fault := by
  induction entries generalizing table with
  | nil =>
    constructor
    · intro h
      cases h
    · intro h
      obtain ⟨before, entry, after, _, h, _⟩ := h
      exact absurd h.symm (List.append_ne_nil_of_right_ne_nil before (List.cons_ne_nil _ _))
  | cons first rest ih =>
    rw [addEntries_cons, Traced.outcome_bind_eq_error_iff]
    constructor
    · intro h
      rcases h with h | ⟨second, hsecond, h⟩
      · exact ⟨[], first, rest, table, rfl, rfl, h⟩
      · obtain ⟨before, entry, after, next, rfl, hnext, hentry⟩ := ih.mp h
        refine ⟨first :: before, entry, after, next, rfl, ?_, hentry⟩
        exact Traced.outcome_bind_eq_ok_iff.mpr ⟨second, hsecond, hnext⟩
    · intro h
      obtain ⟨before, entry, after, next, heq, hnext, hentry⟩ := h
      cases before with
      | nil =>
        obtain ⟨rfl, rfl⟩ := List.cons.inj heq
        cases hnext
        exact .inl hentry
      | cons _ before =>
        obtain ⟨rfl, rfl⟩ := List.cons.inj heq
        obtain ⟨second, hsecond, hnext⟩ := Traced.outcome_bind_eq_ok_iff.mp hnext
        exact .inr ⟨second, hsecond, ih.mpr ⟨before, entry, after, next, rfl, hnext, hentry⟩⟩

theorem definitionEntries_eq_error_iff {document : Tree} {fault : Fault} :
    definitionEntries document = .error fault ↔
      (document.fields?.bind (fieldValue? "definitions") = none ∧
          fault = Cause.noDefinitions.alone) ∨
        ∃ block, document.fields?.bind (fieldValue? "definitions") = some block ∧
          block.fields? = none ∧ fault = Cause.definitionsNotMapping.alone := by
  unfold definitionEntries
  split
  · next hnone => simp [hnone, eq_comm]
  · next block hblock =>
    split
    · next hnone => simp [hblock, hnone, eq_comm]
    · next entries hentries => simp [hblock, hentries]

/-- Reading a document ends at an entry of the block: those before it give a table, and it is not
added to this. -/
structure StopsAt (document : Tree) (before : Fields) (entry : Tree × Tree) (table : Table)
    (fault : Fault) : Prop where
  block : ∃ after, definitionEntries document = .ok (before ++ entry :: after)
  before : (empty.addEntries before).outcome = .ok table
  entry : (table.addEntry entry).outcome = .error fault

/-- A document is not read where it has no block of definitions, or where reading ends at an entry
of the block. -/
theorem ofDocument_eq_error_iff_stopsAt {document : Tree} {fault : Fault} :
    (ofDocument document).outcome = .error fault ↔
      definitionEntries document = .error fault ∨
        ∃ before entry table, StopsAt document before entry table fault := by
  simp only [ofDocument, Traced.outcome_bind_eq_error_iff, Traced.outcome_lift,
    Traced.outcome_report, Traced.outcome_pure, addEntries_eq_error_iff, reduceCtorEq, and_false,
    exists_false, or_false]
  refine or_congr_right ?_
  constructor
  · intro h
    obtain ⟨_, hentries, before, entry, after, table, rfl, hbefore, hentry⟩ := h
    exact ⟨before, entry, table, ⟨after, hentries⟩, hbefore, hentry⟩
  · intro h
    obtain ⟨before, entry, table, ⟨after, hentries⟩, hbefore, hentry⟩ := h
    exact ⟨_, hentries, before, entry, after, table, rfl, hbefore, hentry⟩

/-- A document is not read where it has no block of definitions, or where an entry of the block,
behind others that state a table, is faulty. -/
theorem ofDocument_eq_error_iff {document : Tree} {fault : Fault} :
    (ofDocument document).outcome = .error fault ↔
      definitionEntries document = .error fault ∨
        ∃ before entry after table, definitionEntries document = .ok (before ++ entry :: after) ∧
          (empty.addEntries before).outcome = .ok table ∧ EntryFault before entry fault := by
  rw [ofDocument_eq_error_iff_stopsAt]
  refine or_congr_right ?_
  constructor
  · intro h
    obtain ⟨before, entry, table, ⟨after, hentries⟩, htable, h⟩ := h
    exact ⟨before, entry, after, table, hentries, htable,
      (follows_empty.addEntries htable).addEntry_eq_error_iff.mp h⟩
  · intro h
    obtain ⟨before, entry, after, table, hentries, htable, h⟩ := h
    exact ⟨before, entry, table, ⟨after, hentries⟩, htable,
      (follows_empty.addEntries htable).addEntry_eq_error_iff.mpr h⟩

/-! ## Faults of the block -/

/-- What is wrong with the block of definitions, and with no definition: it is not there or not a
mapping, or behind entries that state a table comes one whose name is not a text or is there
already. -/
inductive BlockFault (document : Tree) : Cause → Prop
  | missing (h : document.fields?.bind (fieldValue? "definitions") = none) :
    BlockFault document .noDefinitions
  | notMapping {block : Tree}
    (hblock : document.fields?.bind (fieldValue? "definitions") = some block)
    (h : block.fields? = none) : BlockFault document .definitionsNotMapping
  | nameNotText {before after : Fields} {entry : Tree × Tree} {table : Table}
    (hentries : definitionEntries document = .ok (before ++ entry :: after))
    (hbefore : (empty.addEntries before).outcome = .ok table) (h : entry.1.text? = none) :
    BlockFault document (.definitionNameNotText entry.1.describe)
  | repeated {before after : Fields} {entry other : Tree × Tree} {table : Table} {d : Definition}
    (hentries : definitionEntries document = .ok (before ++ entry :: after))
    (hbefore : (empty.addEntries before).outcome = .ok table) (hentry : ReadsEntry entry d)
    (hother : other ∈ before) (h : other.1.text? = some d.name) :
    BlockFault document (.definedTwice d.name)

/-- A fault of the block is what reading ends in. -/
theorem BlockFault.outcome_eq {document : Tree} {cause : Cause} (h : BlockFault document cause) :
    (ofDocument document).outcome = .error cause.alone := by
  rw [ofDocument_eq_error_iff]
  cases h with
  | missing h => exact .inl (definitionEntries_eq_error_iff.mpr (.inl ⟨h, rfl⟩))
  | notMapping hblock h =>
    exact .inl (definitionEntries_eq_error_iff.mpr (.inr ⟨_, hblock, h, rfl⟩))
  | nameNotText hentries hbefore h =>
    exact .inr ⟨_, _, _, _, hentries, hbefore, .own (.nameNotText h)⟩
  | repeated hentries hbefore hentry hother h =>
    exact .inr ⟨_, _, _, _, hentries, hbefore, .repeated hentry hother h⟩

/-- A name of a definition of the document, or of a body written in place inside one. -/
def Names (document : Tree) (name : String) : Prop :=
  ∃ entries entry owner, definitionEntries document = .ok entries ∧ entry ∈ entries ∧
    entry.1.text? = some owner ∧
    (name = owner ∨ ∃ fields path body, entry.2.fields? = some fields ∧
      LeadsTo fields path body ∧ name = pathName owner path)

/-- A fault of a document is one of the block, or it bears a name from the document. -/
theorem blockFault_or_named {document : Tree} {fault : Fault}
    (h : (ofDocument document).outcome = .error fault) :
    (∃ cause, BlockFault document cause ∧ fault = cause.alone) ∨
      ∃ name, fault.context = some name ∧ Names document name := by
  rcases ofDocument_eq_error_iff.mp h with
    hblock | ⟨before, entry, after, table, hentries, hbefore, hfault⟩
  · rcases definitionEntries_eq_error_iff.mp hblock with ⟨hnone, rfl⟩ | ⟨_, hsome, hnone, rfl⟩
    · exact .inl ⟨_, .missing hnone, rfl⟩
    · exact .inl ⟨_, .notMapping hsome hnone, rfl⟩
  · have hentry : entry ∈ before ++ entry :: after := by simp
    cases hfault with
    | own hown =>
      cases hown with
      | nameNotText hnone => exact .inl ⟨_, .nameNotText hentries hbefore hnone, rfl⟩
      | @bodyNotMapping name hname _ =>
        exact .inr ⟨name, rfl, _, entry, name, hentries, hentry, hname, .inl rfl⟩
      | @body owner fields _ hname hfields hfails =>
        obtain ⟨path, body, hat⟩ := Definition.exists_faultAt hfails
        exact .inr ⟨_, hat.context, _, entry, owner, hentries, hentry, hname,
          .inr ⟨fields, path, body, hfields, hat.leads, rfl⟩⟩
    | repeated hread hother hname =>
      exact .inl ⟨_, .repeated hentries hbefore hread hother hname, rfl⟩

/-- A fault of a body lies at a path, as the own fault of the body there and under its name. A fault
of a document bears no name exactly where it is one of the block of definitions, and else the name
of a definition or of a body inside one. -/
theorem context_of_fault :
    (∀ name fields fault, (Definition.ofFields name fields).outcome = .error fault →
      ∃ path body, FaultAt name fields fault path body) ∧
      ∀ document fault, (ofDocument document).outcome = .error fault →
        (fault.context = none ↔ BlockFault document fault.cause) ∧
          ∀ name, fault.context = some name → Names document name := by
  refine ⟨fun _ _ _ => Definition.exists_faultAt, fun document fault h => ⟨⟨?_, ?_⟩, ?_⟩⟩
  · intro hnone
    rcases blockFault_or_named h with ⟨cause, hcause, rfl⟩ | ⟨name, hname, -⟩
    · exact hcause
    · cases hnone.symm.trans hname
  · intro hcause
    have heq : fault = fault.cause.alone := Except.error.inj (h.symm.trans hcause.outcome_eq)
    rw [heq]
    rfl
  · intro name hname
    rcases blockFault_or_named h with ⟨cause, -, rfl⟩ | ⟨other, hother, hnames⟩
    · cases hname
    · cases hname.symm.trans hother
      exact hnames

/-- The body of an object whose property is of no kind. -/
def sizedBody : Fields :=
  [(.text "type", .text "object"),
    (.text "properties", .map [(.text "size", .map [(.text "type", .text "text")])])]

/-- The body of an array of such objects. -/
def shelfBody : Fields :=
  [(.text "type", .text "array"), (.text "items", .map sizedBody)]

/-- A fault in a property of the elements of an array bears the name of the property. -/
theorem context_of_fault_in_property :
    (Definition.ofFields "Shelf" shelfBody).outcome =
        .error ((Cause.wordUnknown "type" "text").within "size") ∧
      (∃ path body, FaultAt "Shelf" shelfBody ((Cause.wordUnknown "type" "text").within "size")
        path body) ∧
      (ofDocument (ofBlock [(.text "Shelf", .map shelfBody)])).outcome =
        .error ((Cause.wordUnknown "type" "text").within "size") ∧
      ¬ BlockFault (ofBlock [(.text "Shelf", .map shelfBody)]) (.wordUnknown "type" "text") ∧
      Names (ofBlock [(.text "Shelf", .map shelfBody)]) "size" := by
  have hsize : (Definition.ofFields "size" [(.text "type", .text "text")]).outcome =
      .error ((Cause.wordUnknown "type" "text").within "size") :=
    Definition.ofFields_eq_error_iff.mpr (.inl (.kind rfl))
  have hsized : InnerFault "ShelfItems" sizedBody .object
      ((Cause.wordUnknown "type" "text").within "size") :=
    @InnerFault.property _ _ [] [] _ (.text "size", .map [(.text "type", .text "text")]) [] _ _
      rfl .nil rfl rfl hsize
  have helement : (Definition.ofFields "ShelfItems" sizedBody).outcome =
      .error ((Cause.wordUnknown "type" "text").within "size") :=
    Definition.ofFields_eq_error_iff.mpr (.inr ⟨.object, ⟨"ShelfItems", none⟩, rfl, rfl, hsized⟩)
  have hshelf : (Definition.ofFields "Shelf" shelfBody).outcome =
      .error ((Cause.wordUnknown "type" "text").within "size") :=
    Definition.ofFields_eq_error_iff.mpr
      (.inr ⟨.array, ⟨"Shelf", none⟩, rfl, rfl, .element rfl rfl helement⟩)
  have hdocument : (ofDocument (ofBlock [(.text "Shelf", .map shelfBody)])).outcome =
      .error ((Cause.wordUnknown "type" "text").within "size") :=
    ofDocument_eq_error_iff.mpr (.inr ⟨[], (.text "Shelf", .map shelfBody), [], empty, rfl, rfl,
      .own (.body rfl rfl hshelf)⟩)
  obtain ⟨hblock, hnames⟩ := context_of_fault.2 _ _ hdocument
  refine ⟨hshelf, context_of_fault.1 _ _ _ hshelf, hdocument, fun h => ?_, hnames _ rfl⟩
  cases hblock.mpr h

end TypeTable.Table
