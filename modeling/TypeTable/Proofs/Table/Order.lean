import Mathlib.Data.List.Perm.Subperm
import TypeTable.Proofs.Definition.Order
import TypeTable.Proofs.Table.Distinct

/-!
# Documents in another order

Equal tables have the same names and equal definitions under each of them
(`Table.mem_names_of_same`, `Table.rel_get?_of_same`). `Table.ofDocument_of_alike` says that of two
documents that differ in the order of entries, at any depth, both have tables and these are equal,
or none has one. Which fault is met first is left open, for that depends on the order.
-/

namespace TypeTable.Table

/-! ## Equal tables -/

section Same

variable {table other : Table} {name : String}

/-- Tables are equal when they have as many definitions, each equal to one of the other table. -/
theorem same_iff :
    table.same other = true ↔ table.size = other.size ∧
      ∀ d ∈ table.definitions, ∃ e ∈ other.definitions, d.same e = true := by
  rw [same, Bool.and_eq_true, beq_iff_eq, List.all_eq_true]
  refine and_congr_right fun _ => forall₂_congr fun d _ => ?_
  constructor
  · intro h
    split at h
    · next e he => exact ⟨e, (get?_eq_some_iff.mp he).1, h⟩
    · cases h
  · intro h
    obtain ⟨e, he, hsame⟩ := h
    rw [get?_eq_some_iff.mpr ⟨he, (Definition.name_eq_of_same hsame).symm⟩]
    exact hsame

/-- Definitions with an equal one for each of a table, and as many, have the names of the table. -/
theorem perm_names {definitions : List Definition} (hlength : table.size = definitions.length)
    (h : ∀ d ∈ table.definitions, ∃ e ∈ definitions, d.same e = true) :
    table.names.Perm (definitions.map (·.name)) := by
  have hsubset : table.names ⊆ definitions.map (·.name) := by
    intro name hname
    obtain ⟨d, hd, rfl⟩ := List.mem_map.mp hname
    obtain ⟨e, he, hsame⟩ := h d hd
    exact Definition.name_eq_of_same hsame ▸ List.mem_map_of_mem he
  have hle : (definitions.map (·.name)).length ≤ table.names.length :=
    Nat.le_of_eq (by rw [names, List.length_map, List.length_map, ← hlength, size])
  exact (List.subperm_of_subset table.nodup_names hsubset).perm_of_length_le hle

theorem mem_names_of_same (h : table.same other = true) :
    name ∈ table.names ↔ name ∈ other.names := by
  obtain ⟨hsize, heach⟩ := same_iff.mp h
  exact (perm_names hsize heach).mem_iff

/-- Equal tables have equal definitions under each name, or both have none. -/
theorem rel_get?_of_same (h : table.same other = true) (name : String) :
    Option.Rel (fun d e => d.same e = true) (table.get? name) (other.get? name) := by
  cases hd : table.get? name with
  | some d =>
    obtain ⟨hmem, rfl⟩ := get?_eq_some_iff.mp hd
    obtain ⟨e, he, hsame⟩ := (same_iff.mp h).2 d hmem
    rw [get?_eq_some_iff.mpr ⟨he, (Definition.name_eq_of_same hsame).symm⟩]
    exact .some hsame
  | none =>
    cases he : other.get? name with
    | none => exact .none
    | some e =>
      obtain ⟨hmem, hname⟩ := get?_eq_some_iff.mp he
      have hother : name ∈ other.names := hname ▸ List.mem_map_of_mem hmem
      obtain ⟨d, hd', hname'⟩ := List.mem_map.mp ((mem_names_of_same h).mpr hother)
      cases hd.symm.trans (get?_eq_some_iff.mpr ⟨hd', hname'⟩)

end Same

/-! ## Reading alike documents -/

theorem definitionEntries_of_alike {document other : Tree} {entries : Fields}
    (h : document.Alike other) (hentries : definitionEntries document = .ok entries) :
    ∃ entries', definitionEntries other = .ok entries' ∧
      (Tree.map entries).Alike (.map entries') := by
  obtain ⟨root, block, hroot, hblock, hentries⟩ := definitionEntries_eq_ok_iff.mp hentries
  obtain ⟨root', hroot', hroots⟩ := h.fields? hroot
  obtain ⟨block', hblock', hblocks⟩ := hroots.exists_fieldValue? hblock
  obtain ⟨entries', hentries', halike⟩ := hblocks.fields? hentries
  have hread := definitionEntries_eq_ok_iff.mpr ⟨root', block', hroot', hblock', hentries'⟩
  exact ⟨entries', hread, halike⟩

theorem readsEntry_unique {entry : Tree × Tree} {d e : Definition} (hd : ReadsEntry entry d)
    (he : ReadsEntry entry e) : d = e := by
  have hd := readEntry_eq_ok_iff.mpr hd
  have he := readEntry_eq_ok_iff.mpr he
  exact Except.ok.inj (hd.symm.trans he)

theorem exists_readsEntry_of_alike {entry other : Tree × Tree} {d : Definition}
    (hkey : entry.1.Alike other.1) (hvalue : AlikeTypes entry.2 other.2) (h : ReadsEntry entry d) :
    ∃ e, ReadsEntry other e ∧ d.same e = true := by
  obtain ⟨hname, fields, hfields, hd⟩ := h
  obtain ⟨others, hothers, hbodies⟩ := hvalue.fields? hfields
  obtain ⟨e, he, hsame⟩ := Definition.exists_same_of_alike hbodies hd
  have heq : d.name = e.name := Definition.name_eq_of_same hsame
  exact ⟨e, ⟨heq ▸ hkey.text? hname, others, hothers, heq ▸ he⟩, hsame⟩

section Document

variable {document other : Tree}

/-- If a document has a table, an alike document has an equal one. -/
theorem exists_same_of_alike {table : Table} (h : document.Alike other)
    (hdistinct : DistinctProperties document) (hdistinct' : DistinctProperties other)
    (htable : (ofDocument document).outcome = .ok table) :
    ∃ result, (ofDocument other).outcome = .ok result ∧ table.same result = true := by
  obtain ⟨entries, hentries, hdefinitions⟩ := ofDocument_eq_ok_iff.mp htable
  obtain ⟨entries', hentries', halike⟩ := definitionEntries_of_alike h hentries
  have hentry : ∀ entry ∈ entries, ∀ other ∈ entries', entry.1.Alike other.1 →
      entry.2.Alike other.2 → ∀ d, ReadsEntry entry d →
        ∃ e, ReadsEntry other e ∧ d.same e = true :=
    fun entry hentry other hother hkey hvalue _ => exists_readsEntry_of_alike hkey
      ⟨hvalue, fun fields => hdistinct _ entry fields hentries hentry,
        fun fields => hdistinct' _ other fields hentries' hother⟩
  obtain ⟨definitions, hdefinitions', heach⟩ :=
    halike.exists_stated hdefinitions (fun _ _ _ => readsEntry_unique) hentry
  have hlength : table.size = definitions.length := by
    rw [size, ← hdefinitions.length_eq, ← hdefinitions'.length_eq, halike.length_eq]
  -- The names are those of the table in some order, so none is there twice.
  have hnodup : (definitions.map (·.name)).Nodup :=
    (perm_names hlength heach).nodup_iff.mp table.nodup_names
  refine ⟨⟨definitions, hnodup⟩, ofDocument_eq_ok_iff.mpr ⟨entries', hentries', hdefinitions'⟩, ?_⟩
  exact same_iff.mpr ⟨hlength, heach⟩

/-- Two documents that differ only in the order of entries, and state no property twice, are both
refused, or they have equal tables: with the same names, and with equal definitions under each. -/
theorem ofDocument_of_alike (h : document.Alike other) (hdistinct : DistinctProperties document)
    (hdistinct' : DistinctProperties other) :
    (∃ fault fault', (ofDocument document).outcome = .error fault ∧
      (ofDocument other).outcome = .error fault') ∨
    ∃ table result, (ofDocument document).outcome = .ok table ∧
      (ofDocument other).outcome = .ok result ∧ table.same result = true ∧
      (∀ name, name ∈ table.names ↔ name ∈ result.names) ∧
      ∀ name, Option.Rel (fun d e => d.same e = true) (table.get? name) (result.get? name) := by
  cases htable : (ofDocument document).outcome with
  | ok table =>
    obtain ⟨result, hresult, hsame⟩ := exists_same_of_alike h hdistinct hdistinct' htable
    exact .inr ⟨table, result, rfl, hresult, hsame, fun _ => mem_names_of_same hsame,
      rel_get?_of_same hsame⟩
  | error fault =>
    cases hresult : (ofDocument other).outcome with
    | ok result =>
      obtain ⟨table, hok, -⟩ := exists_same_of_alike h.symm hdistinct' hdistinct hresult
      cases htable.symm.trans hok
    | error fault' => exact .inl ⟨fault, fault', rfl, rfl⟩

end Document

/-- An entry that states a type without properties. -/
def flagEntry : Tree × Tree :=
  (.text "Flag", .map [(.text "type", .text "bool")])

/-- The entries of two properties. -/
def edgeEntries : Fields :=
  [(.text "left", .map [(.text "type", .text "int")]), (.text "right", .text "#Flag")]

/-- An entry that states an object with the properties. -/
def edgeEntry (entries : Fields) : Tree × Tree :=
  (.text "Edge", .map [(.text "type", .text "object"), (.text "properties", .map entries)])

/-- A document of the two definitions. -/
def edges : Tree :=
  ofBlock [flagEntry, edgeEntry edgeEntries]

/-- The document with its definitions, and the properties of one, in reverse. -/
def reversedEdges : Tree :=
  ofBlock [edgeEntry edgeEntries.reverse, flagEntry]

theorem alike_edges : edges.Alike reversedEdges := by
  have hflag : flagEntry.2.DistinctKeys := .cons (by decide) (.text _) .nil
  have hleft : (Tree.map [(.text "type", .text "int")]).DistinctKeys :=
    .cons (by decide) (.text _) .nil
  have hentries : (Tree.map edgeEntries).DistinctKeys :=
    .cons (by decide) hleft (.cons (by decide) (.text _) .nil)
  have hreversed : (Tree.map edgeEntries.reverse).DistinctKeys :=
    .cons (by decide) (.text _) (.cons (by decide) hleft .nil)
  have hedge : ∀ entries, (Tree.map entries).DistinctKeys → (edgeEntry entries).2.DistinctKeys :=
    fun entries h => .cons (by simp [Tree.same_text]) (.text _) (.cons (by decide) h .nil)
  refine ⟨.cons (by decide) ?_ .nil, .cons (by decide) ?_ .nil, by decide⟩
  · exact .cons (by decide) hflag (.cons (by decide) (hedge _ hentries) .nil)
  · exact .cons (by decide) (hedge _ hreversed) (.cons (by decide) hflag .nil)

theorem distinctProperties_edgeEntry {entries : Fields} (hnames : DistinctNames entries)
    (hentries : entries ⊆ edgeEntries) :
    ∀ fields, (edgeEntry entries).2.fields? = some fields →
      TypeTable.DistinctProperties fields := by
  intro fields hfields
  cases hfields
  refine .intro (fun value found hvalue hfound => ?_) (fun value found hvalue _ => ?_)
  · cases hvalue
    cases hfound
    refine ⟨hnames, fun entry hentry inner hinner => ?_⟩
    rcases List.mem_pair.mp (hentries hentry) with rfl | rfl
    · cases hinner
      exact .of_no_types rfl rfl
    · cases hinner
  · cases hvalue

theorem distinctProperties_flagEntry :
    ∀ fields, flagEntry.2.fields? = some fields → TypeTable.DistinctProperties fields := by
  intro fields hfields
  cases hfields
  exact .of_no_types rfl rfl

theorem distinctProperties_edges :
    DistinctProperties edges ∧ DistinctProperties reversedEdges := by
  have hnames : DistinctNames edgeEntries :=
    .of_nodup (Tree.readAs_map_text ["left", "right"]) (by decide)
  have hreversed : DistinctNames edgeEntries.reverse :=
    .of_nodup (Tree.readAs_map_text ["right", "left"]) (by decide)
  refine ⟨distinctProperties_ofBlock ?_, distinctProperties_ofBlock ?_⟩
  · intro entry hentry
    rcases List.mem_pair.mp hentry with rfl | rfl
    · exact distinctProperties_flagEntry
    · exact distinctProperties_edgeEntry hnames (List.Subset.refl _)
  · intro entry hentry
    rcases List.mem_pair.mp hentry with rfl | rfl
    · exact distinctProperties_edgeEntry hreversed fun _ => List.mem_reverse.mp
    · exact distinctProperties_flagEntry

/-- The definitions of the document. -/
def edgesTable : Table where
  definitions := [⟨⟨"Flag", none⟩, .bool⟩, ⟨⟨"Edge", none⟩,
    .object [("left", .inline ⟨"left", none⟩ (.int .int32)), ("right", .named "Flag")] []⟩]
  nodup_names := by decide

/-- A document with a table, and the one in reverse, which has an equal table. -/
theorem ofDocument_of_alike_edges :
    edges.Alike reversedEdges ∧ DistinctProperties edges ∧ DistinctProperties reversedEdges ∧
      (ofDocument edges).outcome = .ok edgesTable ∧
      ∃ result, (ofDocument reversedEdges).outcome = .ok result ∧
        edgesTable.same result = true ∧ ∀ name, name ∈ result.names ↔ name ∈ ["Flag", "Edge"] := by
  obtain ⟨hdistinct, hdistinct'⟩ := distinctProperties_edges
  have hleft : ReadsType "left" (.map [(.text "type", .text "int")])
      (.inline ⟨"left", none⟩ (.int .int32)) :=
    .inline rfl (Definition.ofFields_eq_ok_iff.mpr ⟨rfl, rfl, .int rfl⟩)
  have hstated : List.Forall₂ ReadsProperty edgeEntries
      [("left", .inline ⟨"left", none⟩ (.int .int32)), ("right", .named "Flag")] :=
    .cons ⟨rfl, hleft⟩ (.cons ⟨rfl, .named rfl⟩ .nil)
  have hflag : ReadsEntry flagEntry ⟨⟨"Flag", none⟩, .bool⟩ :=
    ⟨rfl, _, rfl, Definition.ofFields_eq_ok_iff.mpr ⟨rfl, rfl, .bool⟩⟩
  have hedge : ReadsEntry (edgeEntry edgeEntries) ⟨⟨"Edge", none⟩, .object _ []⟩ :=
    ⟨rfl, _, rfl, Definition.ofFields_eq_ok_iff.mpr ⟨rfl, rfl, .object rfl hstated rfl⟩⟩
  have htable : (ofDocument edges).outcome = .ok edgesTable :=
    ofDocument_eq_ok_iff.mpr ⟨_, definitionEntries_ofBlock _, .cons hflag (.cons hedge .nil)⟩
  refine ⟨alike_edges, hdistinct, hdistinct', htable, ?_⟩
  rcases ofDocument_of_alike alike_edges hdistinct hdistinct' with
    ⟨fault, _, hfault, -⟩ | ⟨table, result, hok, hresult, hsame, hnames, -⟩
  · cases htable.symm.trans hfault
  · cases htable.symm.trans hok
    exact ⟨result, hresult, hsame, fun name => (hnames name).symm⟩

end TypeTable.Table
