import Mathlib.Data.List.Nodup
import TypeTable.Proofs.Definition.Places
import TypeTable.Proofs.Table.Image
import TypeTable.Proofs.Table.References
import TypeTable.Proofs.Table.Reword

/-!
# Renamed definitions

Names of definitions are names only. When those of a document are changed one to one, in the keys of
its block and in its references, it has the same table under the new names. References stand for the
renamed definitions, and the first one that dangles is at the same place:
`Table.ofDocument_rename`.
-/

namespace TypeTable

/-- A definition among renamed ones: its name, the names made from it, and its references change. -/
def Definition.rename (f : String → String) (d : Definition) : Definition :=
  (d.under (f d.name)).reword { target := f }

theorem Definition.name_rename (f : String → String) (d : Definition) :
    (d.rename f).name = f d.name := rfl

/-- A body in which the references are renamed, read under the new name. -/
theorem Definition.ofFields_rename (f : String → String) {fields : Fields} {d : Definition}
    (h : (Definition.ofFields d.name fields).outcome = .ok d) :
    (Definition.ofFields (f d.name) (Tree.rewordBody { target := f } fields)).outcome =
      .ok (d.rename f) := by
  rw [Definition.outcome_ofFields_rewordBody, Definition.ofFields_under h (f d.name)]
  rfl

/-- A reference of a table: the name of the definition that it is in, the path from there to the
type that holds it, and the name it refers to. -/
structure Place where
  definition : String
  path : List Step
  target : String

namespace Place

/-- The name of the type that holds a reference. -/
def holder (place : Place) : String :=
  pathName place.definition place.path

/-- The same place among renamed definitions. -/
def rename (f : String → String) (place : Place) : Place :=
  ⟨f place.definition, place.path, f place.target⟩

/-- A place as it is reported. -/
def dangling (place : Place) : Dangling :=
  ⟨place.target, place.holder⟩

end Place

namespace Table

/-! ## Places of references -/

/-- The references of a table in order. -/
def places (table : Table) : List Place :=
  table.definitions.flatMap fun d =>
    (d.shape.places []).map fun place => ⟨d.name, place.1, place.2⟩

/-- The first place of a reference that dangles. -/
def firstDanglingPlace? (table : Table) : Option Place :=
  table.places.find? fun place => !table.contains place.target

theorem references_eq_places {table : Table} (h : table.WellFormed) :
    table.definitions.flatMap (fun d => d.shape.references d.name) =
      table.places.map fun place => (place.target, place.holder) := by
  rw [places, List.map_flatMap]
  refine List.flatMap_congr fun d hd => ?_
  rw [Shape.references_eq_places (h d hd), List.map_map]
  rfl

/-- The check reports the first place of a reference that dangles, if there is one. -/
theorem checkReferences_eq_place {table : Table} (h : table.WellFormed) :
    table.checkReferences =
      match table.firstDanglingPlace? with
      | some place => .error place.dangling
      | none => .ok () := by
  have hfirst : table.firstDangling? = table.firstDanglingPlace?.map Place.dangling := by
    rw [firstDangling?_eq_head?, dangling, references_eq_places h, TypeTable.dangling,
      List.filter_map, List.map_map, List.head?_map, firstDanglingPlace?, ← List.head?_filter]
    rfl
  rw [checkReferences, hfirst]
  cases table.firstDanglingPlace? <;> rfl

/-! ## Renamed tables -/

section Rename

variable {f : String → String} (hf : Function.Injective f)

/-- A table with its definitions renamed. -/
def rename (table : Table) : Table where
  definitions := table.definitions.map (Definition.rename f)
  nodup_names := by
    have hnames : (table.definitions.map (Definition.rename f)).map (·.name) =
        (table.definitions.map (·.name)).map f := by
      rw [List.map_map, List.map_map]
      rfl
    rw [hnames]
    exact List.Nodup.map hf table.nodup_names

theorem names_rename (table : Table) : (table.rename hf).names = table.names.map f := by
  rw [names, rename, List.map_map, names, List.map_map]
  rfl

theorem contains_rename (table : Table) (name : String) :
    (table.rename hf).contains (f name) = table.contains name := by
  rw [Bool.eq_iff_iff, contains_iff, contains_iff, names_rename, List.mem_map_of_injective hf]

theorem get?_rename (table : Table) (name : String) :
    (table.rename hf).get? (f name) = (table.get? name).map (Definition.rename f) := by
  have hname : (fun d : Definition => d.name == name) =
      (fun d => d.name == f name) ∘ Definition.rename f := by
    funext d
    rw [Function.comp_apply, Definition.name_rename, Bool.eq_iff_iff, beq_iff_eq, beq_iff_eq,
      hf.eq_iff]
  rw [get?, rename, List.find?_map, get?, hname]

theorem places_rename (table : Table) :
    (table.rename hf).places = table.places.map (Place.rename f) := by
  rw [places, rename, List.flatMap_map, places, List.map_flatMap]
  refine List.flatMap_congr fun d _ => ?_
  have hplaces : (d.rename f).shape.places [] =
      (d.shape.places []).map (retargetPlace { target := f }) := by
    rw [← Shape.places_under d.shape (f d.name), ← Shape.places_reword]
    rfl
  rw [hplaces, List.map_map, List.map_map]
  rfl

theorem firstDanglingPlace?_rename (table : Table) :
    (table.rename hf).firstDanglingPlace? = table.firstDanglingPlace?.map (Place.rename f) := by
  rw [firstDanglingPlace?, places_rename, List.find?_map, firstDanglingPlace?]
  have hcontains : (fun place : Place => !table.contains place.target) =
      (fun place => !(table.rename hf).contains place.target) ∘ Place.rename f := by
    funext place
    exact congrArg not (contains_rename hf table place.target).symm
  rw [hcontains]

end Rename

/-! ## Renamed documents -/

/-- An entry of the block of definitions among renamed ones. -/
def renameEntry (f : String → String) (entry : Tree × Tree) : Tree × Tree :=
  (entry.1.mapText f, (rewordEntry { target := f } entry).2)

/-- A document with its definitions renamed, where they are defined and where they are referred
to. -/
def renameDocument (f : String → String) (document : Tree) : Tree :=
  overDefinitions (renameEntry f) document

theorem readsEntry_rename (f : String → String) {entry : Tree × Tree} {d : Definition}
    (h : ReadsEntry entry d) : ReadsEntry (renameEntry f entry) (d.rename f) := by
  obtain ⟨hname, fields, hfields, hread⟩ := h
  refine ⟨?_, Tree.rewordBody { target := f } fields, ?_, Definition.ofFields_rename f hread⟩
  · rw [renameEntry, Tree.text?_mapText, hname]
    rfl
  · rw [renameEntry, rewordEntry, Tree.fields?_overFields, hfields]
    rfl

theorem outcome_ofDocument_rename {f : String → String} (hf : Function.Injective f)
    {document : Tree} {table : Table} (h : (ofDocument document).outcome = .ok table) :
    (ofDocument (renameDocument f document)).outcome = .ok (table.rename hf) := by
  obtain ⟨entries, hentries, hdefinitions⟩ := ofDocument_eq_ok_iff.mp h
  refine ofDocument_eq_ok_iff.mpr ⟨entries.map (renameEntry f), ?_, ?_⟩
  · rw [renameDocument, definitionEntries_overDefinitions, hentries]
    rfl
  · exact List.forall₂_map_left_iff.mpr (List.forall₂_map_right_iff.mpr
      (hdefinitions.imp fun _ _ => readsEntry_rename f))

/-- A document with its definitions renamed one to one has the table with these renamed. Its
references are at the same places. Each stands for what the other one stood for, renamed, or for
nothing where that did. If the check of references fails, it is at the same place. -/
theorem ofDocument_rename {f : String → String} (hf : Function.Injective f) {document : Tree}
    {table : Table} (h : (ofDocument document).outcome = .ok table) :
    (ofDocument (renameDocument f document)).outcome = .ok (table.rename hf) ∧
      (table.rename hf).places = table.places.map (Place.rename f) ∧
      (∀ target, (table.rename hf).resolve? (.named (f target)) =
        (table.resolve? (.named target)).map (Definition.rename f)) ∧
      ((table.rename hf).checkReferences = .ok () ↔ table.checkReferences = .ok ()) ∧
      ∀ reported, table.checkReferences = .error reported →
        ∃ place, table.firstDanglingPlace? = some place ∧ reported = place.dangling ∧
          (table.rename hf).checkReferences = .error (place.rename f).dangling := by
  have hrenamed := outcome_ofDocument_rename hf h
  have hcheck := checkReferences_eq_place (wellFormed_of_ofDocument h)
  have hcheck' := checkReferences_eq_place (wellFormed_of_ofDocument hrenamed)
  rw [firstDanglingPlace?_rename] at hcheck'
  refine ⟨hrenamed, places_rename hf table, fun target => get?_rename hf table target, ?_, ?_⟩
  · rw [hcheck, hcheck']
    cases table.firstDanglingPlace? <;> simp
  · intro reported hreported
    rw [hcheck] at hreported
    rw [hcheck']
    cases hplace : table.firstDanglingPlace? with
    | none =>
      rw [hplace] at hreported
      cases hreported
    | some place =>
      rw [hplace] at hreported
      cases hreported
      exact ⟨place, rfl, rfl, rfl⟩

/-- A name behind a prefix. -/
def newName (name : String) : String :=
  "New" ++ name

theorem newName_injective : Function.Injective newName := by
  intro name other h
  have hlists := congrArg String.toList h
  rw [newName, newName, String.toList_append, String.toList_append] at hlists
  exact String.toList_inj.mp (List.append_cancel_left hlists)

/-- An array of arrays, whose elements refer to a name that is not defined. -/
def matrixEntry : Tree × Tree :=
  (.tagged ⟨"t"⟩ (.text "Matrix"), .map [(.text "type", .text "array"), (.text "items",
    .map [(.text "type", .text "array"), (.text "items", .text "#Cell")])])

/-- An object with a property that refers to it. -/
def shelfEntry : Tree × Tree :=
  (.text "Shelf", .map [(.text "type", .text "object"),
    (.text "properties", .map [(.text "rows", .text "#Matrix")])])

/-- The two definitions under names made by `f`. -/
def matrices (f : String → String) : List Definition :=
  [⟨⟨f "Matrix", none⟩, .array .array
      (.inline ⟨f "Matrix" ++ "Items", none⟩ (.array .array (.named (f "Cell"))))⟩,
    ⟨⟨f "Shelf", none⟩, .object [("rows", .named (f "Matrix"))] []⟩]

theorem readsEntries_matrices :
    List.Forall₂ ReadsEntry [matrixEntry, shelfEntry] (matrices id) := by
  have hrow : ReadsType "MatrixItems"
      (.map [(.text "type", .text "array"), (.text "items", .text "#Cell")])
      (.inline ⟨"MatrixItems", none⟩ (.array .array (.named "Cell"))) :=
    .inline rfl (Definition.ofFields_eq_ok_iff.mpr ⟨rfl, rfl, .array rfl (.named rfl) rfl⟩)
  have hrows : ReadsProperty (.text "rows", .text "#Matrix") ("rows", .named "Matrix") :=
    ⟨rfl, .named rfl⟩
  exact .cons ⟨rfl, _, rfl, Definition.ofFields_eq_ok_iff.mpr ⟨rfl, rfl, .array rfl hrow rfl⟩⟩
    (.cons ⟨rfl, _, rfl, Definition.ofFields_eq_ok_iff.mpr
      ⟨rfl, rfl, .object rfl (.cons hrows .nil) rfl⟩⟩ .nil)

/-- The elements of the matrix are named after its new name, and hold the reference that dangles. -/
theorem ofDocument_rename_matrices :
    ∃ table : Table, table.definitions = matrices id ∧
      (ofDocument (ofBlock [matrixEntry, shelfEntry])).outcome = .ok table ∧
      table.checkReferences = .error ⟨"Cell", "MatrixItems"⟩ ∧
      (ofDocument (renameDocument newName (ofBlock [matrixEntry, shelfEntry]))).outcome =
        .ok (table.rename newName_injective) ∧
      (table.rename newName_injective).definitions = matrices newName ∧
      (table.rename newName_injective).checkReferences = .error ⟨"NewCell", "NewMatrixItems"⟩ := by
  have h : (ofDocument (ofBlock [matrixEntry, shelfEntry])).outcome =
      .ok ⟨matrices id, by decide⟩ :=
    ofDocument_eq_ok_iff.mpr ⟨_, definitionEntries_ofBlock _, readsEntries_matrices⟩
  obtain ⟨hrenamed, -, -, -, hcheck⟩ := ofDocument_rename newName_injective h
  refine ⟨_, rfl, h, rfl, hrenamed, rfl, ?_⟩
  obtain ⟨place, hplace, -, hreported⟩ := hcheck ⟨"Cell", "MatrixItems"⟩ rfl
  cases hplace
  exact hreported

end Table

end TypeTable
