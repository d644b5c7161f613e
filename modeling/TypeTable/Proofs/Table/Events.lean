import TypeTable.Proofs.Definition.Events
import TypeTable.Proofs.Table.Distinct
import TypeTable.Proofs.Table.Faults

/-!
# What reading a document reports

`Table.events` lists what is reported about a table: for each definition in order what its shape
holds and then the definition, and at the end their number. `Table.events_ofDocument` says that
reading a document reports this of its table. Where reading ends at an entry of the block, the
events are those of the definitions before it and some of what its body holds. The definition that
the entry states is reported only if it is refused for its name.
-/

namespace TypeTable.Table

open Fault (Cause)
open Log (Event)

/-- What is reported about a table. -/
def events (table : Table) : List Event :=
  table.definitions.flatMap Definition.events ++ [.finished table.size]

section Entry

variable {table next : Table} {entry : Tree × Tree} {d : Definition} {fault : Fault}

theorem events_readEntry
    (hdistinct : ∀ fields, entry.2.fields? = some fields → TypeTable.DistinctProperties fields)
    (h : ReadsEntry entry d) : (readEntry entry).events = d.events := by
  obtain ⟨hname, fields, hfields, hread⟩ := h
  have hevents := Definition.events_ofFields (hdistinct fields hfields) hread
  unfold readEntry
  simp only [hname, hfields]
  rw [Traced.events_bind_of_ok hread, hevents]
  rfl

theorem reports_of_readFault (h : ReadFault entry fault) :
    (readEntry entry).Reports Event.IsHolding := by
  unfold readEntry
  cases h with
  | nameNotText hkey =>
    rw [hkey]
    exact .lift _
  | bodyNotMapping hkey hvalue =>
    simp only [hkey, hvalue]
    exact .lift _
  | body hkey hvalue hfails =>
    simp only [hkey, hvalue]
    intro event hevent
    rw [Traced.events_bind_of_error hfails] at hevent
    exact Definition.isHolding_of_mem_events hevent

theorem events_addEntry
    (hdistinct : ∀ fields, entry.2.fields? = some fields → TypeTable.DistinctProperties fields)
    (h : (table.addEntry entry).outcome = .ok next) :
    ∃ d, next.definitions = table.definitions ++ [d] ∧
      (table.addEntry entry).events = d.events := by
  obtain ⟨d, hread, hdefinitions⟩ := addEntry_eq_ok_iff.mp h
  refine ⟨d, hdefinitions, ?_⟩
  rw [addEntry, Traced.events_bind_of_ok (readEntry_eq_ok_iff.mpr hread),
    events_readEntry hdistinct hread]
  exact List.append_nil _

end Entry

/-- A run over entries reports the definitions that it adds. -/
theorem events_addEntries {table result : Table} {entries : Fields}
    (hdistinct : ∀ entry ∈ entries, ∀ fields, entry.2.fields? = some fields →
      TypeTable.DistinctProperties fields)
    (h : (table.addEntries entries).outcome = .ok result) :
    ∃ added, result.definitions = table.definitions ++ added ∧
      (table.addEntries entries).events = added.flatMap Definition.events := by
  induction entries generalizing table with
  | nil =>
    cases h
    exact ⟨[], (List.append_nil _).symm, rfl⟩
  | cons entry rest ih =>
    obtain ⟨hfirst, hrest⟩ := List.forall_mem_cons.mp hdistinct
    rw [addEntries_cons] at h ⊢
    obtain ⟨next, hnext, h⟩ := Traced.outcome_bind_eq_ok_iff.mp h
    obtain ⟨d, hdefinitions, hevents⟩ := events_addEntry hfirst hnext
    obtain ⟨added, hresult, hadded⟩ := ih hrest h
    refine ⟨d :: added, ?_, ?_⟩
    · rw [hresult, hdefinitions, List.append_assoc, List.singleton_append]
    · rw [Traced.events_bind_of_ok hnext, hevents, hadded, List.flatMap_cons]

/-! ## Where reading ends at an entry -/

/-- A fault of an entry by itself is not that of a name that is taken. -/
theorem ne_definedTwice_of_readFault {entry : Tree × Tree} {fault : Fault}
    (h : ReadFault entry fault) (name : String) : fault ≠ (Cause.definedTwice name).alone := by
  intro heq
  subst heq
  cases h with
  | body _ _ hfails =>
    obtain ⟨path, body, hat⟩ := Definition.exists_faultAt hfails
    cases hat.context

/-- What is reported last about an entry that is refused with a fault: the definition that it
states, if the fault is that its name is taken, and else nothing. -/
def ReportsLast (entry : Tree × Tree) (fault : Fault) (last : List Event) : Prop :=
  (∃ d, ReadsEntry entry d ∧ fault = (Cause.definedTwice d.name).alone ∧
      last = [.defined d.kind d.name]) ∨
    (∀ name, fault ≠ (Cause.definedTwice name).alone) ∧ last = []

/-- About an entry that is refused, what its body holds is reported, and behind it the definition if
the fault is that its name is taken. -/
theorem events_addEntry_of_error {table : Table} {entry : Tree × Tree} {fault : Fault}
    (hdistinct : ∀ fields, entry.2.fields? = some fields → TypeTable.DistinctProperties fields)
    (h : (table.addEntry entry).outcome = .error fault) :
    ∃ held last, (table.addEntry entry).events = held ++ last ∧
      (∀ event ∈ held, event.IsHolding) ∧ ReportsLast entry fault last := by
  rcases Traced.outcome_bind_eq_error_iff.mp h with hread | ⟨d, hd, hinsert⟩
  · have hfault := readEntry_eq_error_iff.mp hread
    refine ⟨(readEntry entry).events, [], ?_, reports_of_readFault hfault,
      .inr ⟨ne_definedTwice_of_readFault hfault, rfl⟩⟩
    rw [addEntry, Traced.events_bind_of_error hread, List.append_nil]
  · have hentry := readEntry_eq_ok_iff.mp hd
    obtain ⟨-, heq⟩ := insert_eq_error_iff.mp hinsert
    refine ⟨d.shape.events d.name, [.defined d.kind d.name], ?_,
      fun _ => Shape.isHolding_of_mem_events, .inl ⟨d, hentry, heq, rfl⟩⟩
    rw [addEntry, Traced.events_bind_of_ok hd, events_readEntry hdistinct hentry]
    exact List.append_nil _

theorem events_of_ok {document : Tree} {table : Table} (hdistinct : DistinctProperties document)
    (h : (ofDocument document).outcome = .ok table) :
    (ofDocument document).events = table.events := by
  obtain ⟨entries, hentries, h⟩ := Traced.outcome_bind_eq_ok_iff.mp h
  obtain ⟨result, hresult, h⟩ := Traced.outcome_bind_eq_ok_iff.mp h
  cases h
  rw [Traced.outcome_lift] at hentries
  obtain ⟨added, htable, hadded⟩ := events_addEntries
    (fun entry hentry fields => hdistinct _ entry fields hentries hentry) hresult
  have hdefinitions : table.definitions = added := htable
  rw [ofDocument, hentries, Traced.lift_ok, pure_bind, Traced.events_bind_of_ok hresult, hadded,
    events, hdefinitions]
  rfl

theorem events_of_stopsAt {document : Tree} {before : Fields} {entry : Tree × Tree} {table : Table}
    {fault : Fault} (hdistinct : DistinctProperties document)
    (h : StopsAt document before entry table fault) :
    ∃ held last,
      (ofDocument document).events =
        table.definitions.flatMap Definition.events ++ held ++ last ∧
      (∀ event ∈ held, event.IsHolding) ∧ ReportsLast entry fault last := by
  obtain ⟨⟨after, hentries⟩, hbefore, hentry⟩ := h
  have hentry_mem : entry ∈ before ++ entry :: after := by simp
  obtain ⟨added, htable, hadded⟩ := events_addEntries
    (fun other hother fields => hdistinct _ other fields hentries (List.mem_append_left _ hother))
    hbefore
  obtain ⟨held, last, hevents, hheld, hlast⟩ :=
    events_addEntry_of_error (fun fields => hdistinct _ entry fields hentries hentry_mem) hentry
  refine ⟨held, last, ?_, hheld, hlast⟩
  have hrest : (table.addEntries (entry :: after)).outcome = .error fault := by
    rw [addEntries_cons]
    exact Traced.outcome_bind_eq_error_iff.mpr (.inl hentry)
  have hrun : (empty.addEntries (before ++ entry :: after)).outcome = .error fault := by
    rw [addEntries_append]
    exact Traced.outcome_bind_eq_error_iff.mpr (.inr ⟨table, hbefore, hrest⟩)
  have hdefinitions : table.definitions = added := htable
  calc (ofDocument document).events
      = (empty.addEntries (before ++ entry :: after)).events := by
        rw [ofDocument, hentries, Traced.lift_ok, pure_bind, Traced.events_bind_of_error hrun]
    _ = (empty.addEntries before).events ++ (table.addEntries (entry :: after)).events := by
        rw [addEntries_append, Traced.events_bind_of_ok hbefore]
    _ = table.definitions.flatMap Definition.events ++ (held ++ last) := by
        rw [hadded, hdefinitions, addEntries_cons, Traced.events_bind_of_error hentry, hevents]
    _ = table.definitions.flatMap Definition.events ++ held ++ last :=
        (List.append_assoc ..).symm

/-! ## Documents -/

theorem level_ne_info_of_mem_events {d : Definition} {event : Event} (h : event ∈ d.events) :
    event.level ≠ .info := by
  rcases List.mem_append.mp h with hheld | hdefined
  · exact (Shape.isHolding_of_mem_events hheld).level_ne_info
  · rw [List.mem_singleton.mp hdefined]
    exact Log.Level.noConfusion

theorem ReportsLast.level_ne_info {entry : Tree × Tree} {fault : Fault} {last : List Event}
    (h : ReportsLast entry fault last) {event : Event} (hevent : event ∈ last) :
    event.level ≠ .info := by
  rcases h with ⟨d, -, -, rfl⟩ | ⟨-, rfl⟩
  · rw [List.mem_singleton.mp hevent]
    exact Log.Level.noConfusion
  · cases hevent

/-- Reading a document reports the events of its table. If the document is refused, nothing is
reported where it has no usable block. Else reading ends at an entry, and what is reported is about
the definitions before it, then some of what its body holds, and last the definition that it states,
if its name is taken; that reading has finished is not reported. -/
theorem events_ofDocument {document : Tree} (hdistinct : DistinctProperties document) :
    (∀ table, (ofDocument document).outcome = .ok table →
      (ofDocument document).events = table.events) ∧
    ∀ fault, (ofDocument document).outcome = .error fault →
      (definitionEntries document = .error fault ∧ (ofDocument document).events = []) ∨
      ∃ before entry table held last, StopsAt document before entry table fault ∧
        (ofDocument document).events =
          table.definitions.flatMap Definition.events ++ held ++ last ∧
        (∀ event ∈ held, event.IsHolding) ∧ ReportsLast entry fault last ∧
        ∀ event ∈ (ofDocument document).events, event.level ≠ .info := by
  refine ⟨fun table h => events_of_ok hdistinct h, fun fault h => ?_⟩
  rcases ofDocument_eq_error_iff_stopsAt.mp h with hblock | ⟨before, entry, table, hstops⟩
  · refine .inl ⟨hblock, ?_⟩
    have hlift : (liftM (definitionEntries document) : Traced Fault Fields).outcome =
        .error fault := hblock
    rw [ofDocument, Traced.events_bind_of_error hlift]
    rfl
  · obtain ⟨held, last, hevents, hheld, hlast⟩ := events_of_stopsAt hdistinct hstops
    refine .inr ⟨before, entry, table, held, last, hstops, hevents, hheld, hlast, ?_⟩
    intro event hevent
    rw [hevents, List.append_assoc, List.mem_append, List.mem_append] at hevent
    rcases hevent with hbefore | hinner | hdefined
    · obtain ⟨d, -, hd⟩ := List.mem_flatMap.mp hbefore
      exact level_ne_info_of_mem_events hd
    · exact (hheld event hinner).level_ne_info
    · exact hlast.level_ne_info hdefined

/-- The body of an array of references. -/
def membersBody : Fields :=
  [(.text "type", .text "array"), (.text "items", .text "#Team")]

/-- The body of an object that has the array as a property. -/
def teamBody : Fields :=
  [(.text "type", .text "object"), (.text "properties", .map [(.text "members", .map membersBody)])]

/-- The type of the array. -/
def members : Definition :=
  ⟨⟨"members", none⟩, .array .array (.named "Team")⟩

/-- The type of the object. -/
def team : Definition :=
  ⟨⟨"Team", none⟩, .object [("members", members.toInline)] []⟩

/-- An entry that states the object. -/
def teamEntry : Tree × Tree :=
  (.text "Team", .map teamBody)

/-- An entry whose key reads as the same name. -/
def otherEntry : Tree × Tree :=
  (.tagged ⟨"t"⟩ (.text "Team"), .map [(.text "type", .text "bool")])

theorem readsEntry_team : ReadsEntry teamEntry team := by
  have hmembers : ReadsProperty (.text "members", .map membersBody) ("members", members.toInline) :=
    ⟨rfl, .inline rfl (Definition.ofFields_eq_ok_iff.mpr ⟨rfl, rfl, .array rfl (.named rfl) rfl⟩)⟩
  have hshape : ReadsShape "Team" teamBody team.shape :=
    .object rfl (.cons hmembers .nil) rfl
  exact ⟨rfl, teamBody, rfl, Definition.ofFields_eq_ok_iff.mpr ⟨rfl, rfl, hshape⟩⟩

theorem distinctProperties_teamBody : TypeTable.DistinctProperties teamBody := by
  have hmembers : TypeTable.DistinctProperties membersBody := by
    refine .intro (fun value entries hvalue _ => ?_) (fun value inner hvalue hinner => ?_)
    · cases hvalue
    · cases hvalue
      cases hinner
  refine .intro (fun value entries hvalue hentries => ?_) (fun value inner hvalue _ => ?_)
  · cases hvalue
    cases hentries
    refine ⟨List.pairwise_singleton _ _, fun entry hentry inner hinner => ?_⟩
    rw [List.mem_singleton.mp hentry] at hinner
    cases hinner
    exact hmembers
  · cases hvalue

theorem distinctProperties_teams : DistinctProperties (ofBlock [teamEntry, otherEntry]) := by
  refine distinctProperties_ofBlock fun entry hentry fields hfields => ?_
  rcases List.mem_cons.mp hentry with rfl | hother
  · cases hfields
    exact distinctProperties_teamBody
  · rw [List.mem_singleton.mp hother] at hfields
    cases hfields
    exact .of_no_types rfl rfl

/-- What an object holds is reported before it. A definition whose name is taken is reported last.
-/
theorem events_ofDocument_teams :
    (DistinctProperties (ofBlock [teamEntry]) ∧
      (ofDocument (ofBlock [teamEntry])).events =
        [.refers "members" "items" "Team", .holds "Team" "property 'members'" .array "members",
          .defined .object "Team", .finished 1]) ∧
    (DistinctProperties (ofBlock [teamEntry, otherEntry]) ∧
      (ofDocument (ofBlock [teamEntry, otherEntry])).outcome =
        .error (Cause.definedTwice "Team").alone ∧
      ∃ kind, (ofDocument (ofBlock [teamEntry, otherEntry])).events.getLast? =
        some (.defined kind "Team")) := by
  have hone : DistinctProperties (ofBlock [teamEntry]) := by
    refine distinctProperties_ofBlock fun entry hentry fields hfields => ?_
    rw [List.mem_singleton.mp hentry] at hfields
    cases hfields
    exact distinctProperties_teamBody
  have htable : (ofDocument (ofBlock [teamEntry])).outcome =
      .ok ⟨[team], List.pairwise_singleton _ _⟩ :=
    ofDocument_eq_ok_iff.mpr ⟨_, definitionEntries_ofBlock _, .cons readsEntry_team .nil⟩
  have hother : ReadsEntry otherEntry ⟨⟨"Team", none⟩, .bool⟩ :=
    ⟨rfl, _, rfl, Definition.ofFields_eq_ok_iff.mpr ⟨rfl, rfl, .bool⟩⟩
  have hrefused : (ofDocument (ofBlock [teamEntry, otherEntry])).outcome =
      .error (Cause.definedTwice "Team").alone :=
    ofDocument_eq_error_iff.mpr (.inr ⟨[teamEntry], otherEntry, [], _,
      definitionEntries_ofBlock _, outcome_ofBlock _ ▸ htable,
      .repeated hother (List.mem_singleton_self _) rfl⟩)
  refine ⟨⟨hone, (events_ofDocument hone).1 _ htable⟩, distinctProperties_teams, hrefused, ?_⟩
  rcases (events_ofDocument distinctProperties_teams).2 _ hrefused with
    ⟨hblock, -⟩ | ⟨before, entry, table, held, last, -, hevents, -, hlast, -⟩
  · cases hblock
  · rcases hlast with ⟨d, -, heq, rfl⟩ | ⟨hne, -⟩
    · have hname : "Team" = d.name := by
        injection heq with hcause
        exact Cause.definedTwice.inj hcause
      exact ⟨d.kind, by rw [hevents, List.getLast?_concat, hname]⟩
    · exact absurd rfl (hne "Team")

end TypeTable.Table
