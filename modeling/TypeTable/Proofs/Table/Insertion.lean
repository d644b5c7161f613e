import Mathlib.Data.Finset.Card
import TypeTable.Proofs.Definition.ListedTexts
import TypeTable.Proofs.Table.Reading

/-!
# Insertions one after another

Definitions are inserted into a table one after another, and one that is refused does not end the
run. `Table.put` is the insertion into a table that is kept whatever comes of it, and
`Table.putEach` a run of such insertions. A run from the empty table keeps the first definition of
each name (`firstOfEach`), in the order of the sequence: `Table.putEach_keepsFirst`.
-/

namespace TypeTable

open Fault (Cause)

/-! ## The first of each name -/

/-- Whether the definition at a place of a sequence is the first of its name: none before it has the
name. -/
def isFirst (ds : List Definition) (place : Definition × Nat) : Bool :=
  !((ds.take place.2).map (·.name)).contains place.1.name

/-- The definitions of a sequence that are the first of their name, in order. -/
def firstOfEach (ds : List Definition) : List Definition :=
  (ds.zipIdx.filter (isFirst ds)).map (·.1)

/-- One more definition counts if its name is new. -/
theorem firstOfEach_append_singleton (ds : List Definition) (d : Definition) :
    firstOfEach (ds ++ [d]) =
      if (ds.map (·.name)).contains d.name then firstOfEach ds else firstOfEach ds ++ [d] := by
  -- What comes behind a definition does not matter to whether it is the first of its name.
  have hearlier : ds.zipIdx.filter (isFirst (ds ++ [d])) = ds.zipIdx.filter (isFirst ds) := by
    refine List.filter_congr fun place hplace => ?_
    have hlt : place.2 < ds.length := List.snd_lt_of_mem_zipIdx hplace
    rw [isFirst, isFirst, List.take_append_of_le_length hlt.le]
  have hlast : isFirst (ds ++ [d]) (d, ds.length) = !(ds.map (·.name)).contains d.name := by
    rw [isFirst, List.take_left]
  rw [firstOfEach, List.zipIdx_append, List.filter_append, List.map_append, hearlier,
    List.zipIdx_singleton, Nat.zero_add, List.filter_singleton, hlast, firstOfEach]
  cases (ds.map (·.name)).contains d.name
  · rfl
  · exact List.append_nil _

/-- The names of the first definitions are those of all of them, each of them once. -/
theorem names_firstOfEach (ds : List Definition) :
    (firstOfEach ds).map (·.name) = addNew [] (ds.map (·.name)) := by
  induction ds using List.reverseRecOn with
  | nil => rfl
  | append_singleton ds d ih =>
    have hcontains : (addNew [] (ds.map (·.name))).contains d.name =
        (ds.map (·.name)).contains d.name := by
      rw [Bool.eq_iff_iff, List.contains_iff_mem, List.contains_iff_mem, mem_addNew_nil]
    rw [firstOfEach_append_singleton, List.map_append, List.map_singleton, addNew_append,
      addNew_cons, addNew_nil, hcontains, ← ih]
    split
    · rfl
    · rw [List.map_append, List.map_singleton]

/-- The first definition of a name is the one that a search in the sequence finds. -/
theorem find?_firstOfEach (ds : List Definition) (name : String) :
    (firstOfEach ds).find? (·.name == name) = ds.find? (·.name == name) := by
  induction ds using List.reverseRecOn with
  | nil => rfl
  | append_singleton ds d ih =>
    rw [firstOfEach_append_singleton, List.find?_append, ← ih]
    split
    · next htaken =>
      -- If the last definition has the name, so does one before it, and that one is found.
      cases hfound : (firstOfEach ds).find? (·.name == name) with
      | some first => rfl
      | none =>
        have hother : d.name ≠ name := by
          rintro rfl
          obtain ⟨e, he, hname⟩ := List.mem_map.mp (List.contains_iff_mem.mp htaken)
          rw [ih, List.find?_eq_none] at hfound
          exact hfound e he (by simpa using hname)
        rw [List.find?_singleton, if_neg (by simpa using hother), Option.or_none]
    · rw [List.find?_append]

namespace Table

/-! ## One insertion -/

/-- An insertion into a table that is changed in place: whether it succeeds, and the table that is
there afterwards. -/
def put (table : Table) (d : Definition) : Except Fault Unit × Table :=
  match h : table.contains d.name with
  | true => (.error (Cause.definedTwice d.name).alone, table)
  | false => (.ok (), ⟨table.definitions ++ [d], nodup_names_append h⟩)

theorem put_of_contains {table : Table} {d : Definition} (h : table.contains d.name = true) :
    table.put d = (.error (Cause.definedTwice d.name).alone, table) := by
  unfold put
  split
  · rfl
  · next hfree => cases h.symm.trans hfree

theorem put_of_not_contains {table : Table} {d : Definition}
    (h : table.contains d.name = false) :
    table.put d = (.ok (), ⟨table.definitions ++ [d], nodup_names_append h⟩) := by
  unfold put
  split
  · next htaken => cases h.symm.trans htaken
  · rfl

/-- An insertion that makes a new table is that in place, and has no table where this fails. -/
theorem insert_eq_put (table : Table) (d : Definition) :
    table.insert d = (table.put d).1.map fun _ => (table.put d).2 := by
  cases h : table.contains d.name with
  | true =>
    rw [insert, dif_pos h, put_of_contains h]
    rfl
  | false =>
    rw [insert, dif_neg (by rw [h]; exact Bool.false_ne_true), put_of_not_contains h]
    rfl

/-- A refused definition leaves the table as it is. -/
theorem put_eq_self {table : Table} {d : Definition} {fault : Fault}
    (h : (table.put d).1 = .error fault) : (table.put d).2 = table := by
  cases hcontains : table.contains d.name with
  | true => rw [put_of_contains hcontains]
  | false =>
    rw [put_of_not_contains hcontains] at h
    cases h

theorem definitions_put (table : Table) (d : Definition) :
    (table.put d).2.definitions =
      if table.contains d.name then table.definitions else table.definitions ++ [d] := by
  cases h : table.contains d.name with
  | true => rw [put_of_contains h, if_pos rfl]
  | false => rw [put_of_not_contains h, if_neg Bool.false_ne_true]

/-! ## Runs of insertions -/

/-- The table after insertions in place, one for each definition, whichever of them fail. -/
def putEach (table : Table) (ds : List Definition) : Table :=
  ds.foldl (fun table d => (table.put d).2) table

theorem putEach_append_singleton (table : Table) (ds : List Definition) (d : Definition) :
    table.putEach (ds ++ [d]) = ((table.putEach ds).put d).2 :=
  List.foldl_concat ..

/-- After any insertions the table holds the first definition of each name, in order. -/
theorem definitions_putEach (ds : List Definition) :
    (empty.putEach ds).definitions = firstOfEach ds := by
  induction ds using List.reverseRecOn with
  | nil => rfl
  | append_singleton ds d ih =>
    have hcontains : (empty.putEach ds).contains d.name = (ds.map (·.name)).contains d.name := by
      rw [contains, names, ih, names_firstOfEach, Bool.eq_iff_iff, List.contains_iff_mem,
        List.contains_iff_mem, mem_addNew_nil]
    rw [putEach_append_singleton, definitions_put, firstOfEach_append_singleton, hcontains, ih]

theorem names_putEach (ds : List Definition) :
    (empty.putEach ds).names = addNew [] (ds.map (·.name)) := by
  rw [names, definitions_putEach, names_firstOfEach]

theorem mem_names_putEach {ds : List Definition} {name : String} :
    name ∈ (empty.putEach ds).names ↔ ∃ d ∈ ds, d.name = name := by
  rw [names_putEach, mem_addNew_nil, List.mem_map]

/-- An insertion fails exactly when a definition before it has the name. -/
theorem put_putEach_eq_error_iff {ds : List Definition} {d : Definition} {fault : Fault} :
    ((empty.putEach ds).put d).1 = .error fault ↔
      (∃ e ∈ ds, e.name = d.name) ∧ fault = (Cause.definedTwice d.name).alone := by
  rw [← mem_names_putEach, ← insert_eq_error_iff, insert_eq_put, Except.map_eq_error_iff]

theorem size_putEach (ds : List Definition) :
    (empty.putEach ds).size = (ds.map (·.name)).toFinset.card := by
  have hnames : (empty.putEach ds).names.toFinset = (ds.map (·.name)).toFinset := by
    ext name
    rw [List.mem_toFinset, List.mem_toFinset, names_putEach, mem_addNew_nil]
  have hnodup : (empty.putEach ds).names.Nodup := (empty.putEach ds).nodup_names
  rw [← hnames, List.toFinset_card_of_nodup hnodup, names, List.length_map, size]

/-- Definitions inserted one after another into the empty table, going on after failures. An
insertion fails exactly when an earlier definition has the name, and the table is then what it was.
In the end the table holds the first definition of each name in order, each under its own name: its
names are those of the sequence in the order in which they come first, its size is their number,
and a look-up finds what a search in the sequence finds. -/
theorem putEach_keepsFirst (ds : List Definition) :
    (∀ i d, ds[i]? = some d →
      (empty.putEach (ds.take i)).insert d =
        ((empty.putEach (ds.take i)).put d).1.map (fun _ => empty.putEach (ds.take (i + 1))) ∧
      (∀ fault, ((empty.putEach (ds.take i)).put d).1 = .error fault ↔
        (∃ e ∈ ds.take i, e.name = d.name) ∧ fault = (Cause.definedTwice d.name).alone) ∧
      ∀ fault, ((empty.putEach (ds.take i)).put d).1 = .error fault →
        empty.putEach (ds.take (i + 1)) = empty.putEach (ds.take i)) ∧
    (empty.putEach ds).definitions = firstOfEach ds ∧
    (∀ d ∈ firstOfEach ds, (empty.putEach ds).get? d.name = some d) ∧
    FirstOccurrences (ds.map (·.name)) (empty.putEach ds).names ∧
    (empty.putEach ds).size = (ds.map (·.name)).toFinset.card ∧
    ∀ name, ((empty.putEach ds).contains name = true ↔ ∃ d ∈ ds, d.name = name) ∧
      (empty.putEach ds).get? name = ds.find? (·.name == name) := by
  refine ⟨fun i d hd => ?_, definitions_putEach ds, fun d hd => ?_, ?_, size_putEach ds,
    fun name => ⟨?_, ?_⟩⟩
  · have hnext : empty.putEach (ds.take (i + 1)) = ((empty.putEach (ds.take i)).put d).2 := by
      rw [List.take_add_one, hd, Option.toList_some, putEach_append_singleton]
    rw [hnext]
    exact ⟨insert_eq_put _ d, fun fault => put_putEach_eq_error_iff, fun fault => put_eq_self⟩
  · exact get?_eq_some_iff.mpr ⟨definitions_putEach ds ▸ hd, rfl⟩
  · rw [names_putEach]
    exact firstOccurrences_addNew _
  · rw [contains_iff, mem_names_putEach]
  · rw [get?, definitions_putEach, find?_firstOfEach]

/-- Three definitions, the last under the name of the first. -/
def ages : List Definition :=
  [⟨⟨"Age", none⟩, .int .int64⟩, ⟨⟨"Flag", none⟩, .bool⟩, ⟨⟨"Age", none⟩, .int .uint32⟩]

/-- The last one is refused, and the table stays. -/
theorem putEach_keepsFirst_ages :
    ages[2]? = some ⟨⟨"Age", none⟩, .int .uint32⟩ ∧
      ((empty.putEach (ages.take 2)).put ⟨⟨"Age", none⟩, .int .uint32⟩).1 =
        .error (Cause.definedTwice "Age").alone ∧
      empty.putEach ages = empty.putEach (ages.take 2) ∧
      (empty.putEach ages).definitions = ages.take 2 ∧
      (empty.putEach ages).get? "Age" = some ⟨⟨"Age", none⟩, .int .int64⟩ := by
  obtain ⟨hsteps, hdefinitions, -, -, -, hlookup⟩ := putEach_keepsFirst ages
  obtain ⟨-, hfails, hstays⟩ := hsteps 2 ⟨⟨"Age", none⟩, .int .uint32⟩ rfl
  have hrefused := (hfails (Cause.definedTwice "Age").alone).mpr
    ⟨⟨_, List.mem_cons_self .., rfl⟩, rfl⟩
  exact ⟨rfl, hrefused, hstays _ hrefused, hdefinitions, (hlookup "Age").2⟩

end Table

end TypeTable
