import TypeTable.Proofs.Definition.Equality
import TypeTable.Proofs.Table.Image
import TypeTable.Proofs.Table.Order
import TypeTable.Proofs.Table.References

/-!
# Equal tables

Of tables without repeats, as all that are read from documents are
(`Table.withoutRepeats_of_ofDocument`), equality is an equivalence, and equal ones answer alike all
that they are asked: `Table.same_lawful`.
-/

namespace TypeTable.Table

/-- A table in whose definitions there are no repeats. -/
def WithoutRepeats (table : Table) : Prop :=
  ∀ d ∈ table.definitions, d.WithoutRepeats

/-- There are no repeats in the table of a document. -/
theorem withoutRepeats_of_ofDocument {document : Tree} {table : Table}
    (h : (ofDocument document).outcome = .ok table) : table.WithoutRepeats :=
  fun d hd => (wellFormed_of_ofDocument h d hd).withoutRepeats

variable {table other : Table}

/-! ## Partners -/

/-- The definitions of equal tables are partners of one another, as each name is there once. -/
theorem exists_same_of_mem (h : table.same other = true) :
    ∀ e ∈ other.definitions, ∃ d ∈ table.definitions, d.same e = true := by
  obtain ⟨hsize, heach⟩ := same_iff.mp h
  refine List.exists_of_mem_of_length_le heach ?_ (Nat.le_of_eq hsize.symm)
  refine (List.pairwise_map.mp table.nodup_names).imp fun hne e hd hd' => hne ?_
  exact (Definition.name_eq_of_same hd).trans (Definition.name_eq_of_same hd').symm

theorem WithoutRepeats.lawful (h : table.WithoutRepeats) : Lawful Table.same table := by
  constructor
  · exact same_iff.mpr ⟨rfl, fun d hd => ⟨d, hd, (h d hd).lawful.self⟩⟩
  · intro other hother
    obtain ⟨hsize, heach⟩ := same_iff.mp hother
    funext third
    rw [Bool.eq_iff_iff, same_iff, same_iff, hsize]
    refine and_congr_right fun _ => ⟨fun hthird e he => ?_, fun hthird d hd => ?_⟩
    · obtain ⟨d, hd, hsame⟩ := exists_same_of_mem hother e he
      rw [← (h d hd).lawful.congr e hsame]
      exact hthird d hd
    · obtain ⟨e, he, hsame⟩ := heach d hd
      rw [(h d hd).lawful.congr e hsame]
      exact hthird e he

/-! ## What equal tables answer -/

/-- Two tables that answer alike all that they are asked: how many definitions they have, what is
defined and how, what equal type expressions stand for, and whether all references are defined. -/
structure Agrees (table other : Table) : Prop where
  size : table.size = other.size
  contains : ∀ name, table.contains name = other.contains name
  get? : ∀ name, Option.Rel (fun d e => d.same e = true ∧ d.Agrees e) (table.get? name)
    (other.get? name)
  resolve? : ∀ type type', TypeExpr.same type type' = true →
    Option.Rel (fun d e => d.same e = true) (table.resolve? type) (other.resolve? type')
  checkReferences : table.checkReferences = .ok () ↔ other.checkReferences = .ok ()

theorem rel_resolve?_of_same {type type' : TypeExpr} (h : table.same other = true)
    (htype : type.same type' = true) :
    Option.Rel (fun d e => d.same e = true) (table.resolve? type) (other.resolve? type') := by
  cases type with
  | named name =>
    cases type' with
    | named name' =>
      rw [eq_of_beq htype]
      exact rel_get?_of_same h name'
    | inline => cases htype
  | inline header shape =>
    cases type' with
    | named => cases htype
    | inline header' shape' => exact .some htype

theorem contains_of_same (h : table.same other = true) (name : String) :
    table.contains name = other.contains name := by
  rw [Bool.eq_iff_iff, contains_iff, contains_iff, mem_names_of_same h]

/-- If all references of a table are defined, so are those of a table whose definitions each have
an equal one in it. -/
theorem checkReferences_of_same
    (hcontains : ∀ name, table.contains name = true → other.contains name = true)
    (heach : ∀ e ∈ other.definitions, ∃ d ∈ table.definitions, e.same d = true)
    (h : table.checkReferences = .ok ()) : other.checkReferences = .ok () := by
  refine checkReferences_eq_ok_iff.mpr fun e he => ?_
  obtain ⟨d, hd, hsame⟩ := heach e he
  have hshape := (Bool.and_eq_true_iff.mp hsame).2
  intro type hholds
  cases type with
  | named name =>
    have htarget := checkReferences_eq_ok_iff.mp h d hd _ (Shape.holds_of_same hshape hholds)
    exact exists_resolve?_named_iff.mpr (hcontains name (exists_resolve?_named_iff.mp htarget))
  | inline header shape => exact ⟨_, rfl⟩

theorem agrees_of_same (hrepeats : table.WithoutRepeats) (h : table.same other = true) :
    table.Agrees other where
  size := (same_iff.mp h).1
  contains := contains_of_same h
  get? name := by
    refine (rel_get?_of_same h name).imp fun d e hd hsame => ⟨hsame, ?_⟩
    exact Definition.agrees_of_same (hrepeats d (get?_eq_some_iff.mp hd).1) hsame
  resolve? _ _ htype := rel_resolve?_of_same h htype
  checkReferences := by
    have hcontains := contains_of_same h
    have hback := hrepeats.lawful.symm h
    constructor
    · refine checkReferences_of_same (fun name hname => hcontains name ▸ hname) ?_
      exact (same_iff.mp hback).2
    · refine checkReferences_of_same (fun name hname => (hcontains name).symm ▸ hname) ?_
      exact (same_iff.mp h).2

/-- A table without repeats is equal to itself, an equal table is equal to it and to the same
tables, and the two answer alike; so do equal definitions, in the tables or not. -/
theorem same_lawful (h : table.WithoutRepeats) :
    table.same table = true ∧
    (∀ other : Table, table.same other = true →
      other.same table = true ∧
      (∀ third : Table, other.same third = true → table.same third = true) ∧
      table.Agrees other) ∧
    ∀ d e : Definition, d.WithoutRepeats → d.same e = true → d.Agrees e := by
  refine ⟨h.lawful.self, fun other hother => ?_, fun d e hd he => Definition.agrees_of_same hd he⟩
  exact ⟨h.lawful.symm hother, fun third => h.lawful.trans hother, agrees_of_same h hother⟩

/-- An enumeration, and an object of it whose properties are both required. -/
def markers : Table where
  definitions := [⟨⟨"Colour", none⟩, .string (some ["red", "blue"])⟩,
    ⟨⟨"Marker", some "A mark."⟩, .object [("colour", .named "Colour"),
      ("weight", .inline ⟨"weight", none⟩ (.int .int32))] ["colour", "weight"]⟩]
  nodup_names := by decide

/-- The table with the definitions, the properties and the required ones in reverse. -/
def reversedMarkers : Table where
  definitions := [⟨⟨"Marker", some "A mark."⟩, .object [("weight",
      .inline ⟨"weight", none⟩ (.int .int32)), ("colour", .named "Colour")] ["weight", "colour"]⟩,
    ⟨⟨"Colour", none⟩, .string (some ["red", "blue"])⟩]
  nodup_names := by decide

theorem same_lawful_markers :
    markers.WithoutRepeats ∧ markers.same reversedMarkers = true ∧
      reversedMarkers.same markers = true ∧ markers.Agrees reversedMarkers := by
  have hrepeats : markers.WithoutRepeats := by
    intro d hd
    rcases List.mem_pair.mp hd with rfl | rfl
    · exact .string
    · refine .object (by decide) (fun property hproperty => ?_) (by decide)
      rcases List.mem_pair.mp hproperty with rfl | rfl
      · exact .named
      · exact .inline .int
  have hsame : markers.same reversedMarkers = true := by decide
  obtain ⟨-, hequal, -⟩ := same_lawful hrepeats
  obtain ⟨hback, -, hagrees⟩ := hequal reversedMarkers hsame
  exact ⟨hrepeats, hsame, hback, hagrees⟩

end TypeTable.Table
