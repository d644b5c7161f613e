import TypeTable.Proofs.Definition.Faults

/-!
# Bodies that state no property twice

Two keys of a mapping may read as one name. In a body with `DistinctProperties` the keys of the
properties do not, and neither do they in the bodies written in place in it. What its entries state
are then its properties, one by one (`DistinctProperties.collectProperties_eq`).
-/

namespace TypeTable

/-- No two keys of entries read as one name. -/
def DistinctNames (entries : Fields) : Prop :=
  entries.Pairwise fun a b => ∀ name, a.1.text? = some name → b.1.text? ≠ some name

/-- No two properties of a body, or of one written in place in it, are stated under one name. -/
def DistinctProperties (fields : Fields) : Prop :=
  ∀ path body value entries, LeadsTo fields path body →
    fieldValue? "properties" body = some value → value.fields? = some entries →
    DistinctNames entries

theorem DistinctNames.nodup {entries : Fields} {names : List String} (h : DistinctNames entries)
    (hnames : Tree.ReadAs (entries.map (·.1)) names) : names.Nodup := by
  have htexts : entries.map (·.1.text?) = names.map some := by
    rw [← hnames, List.map_map]
    rfl
  have hread : ∀ entry ∈ entries, ∃ name, entry.1.text? = some name := fun entry hentry =>
    Tree.exists_readAs_iff.mp ⟨names, hnames⟩ entry.1 (List.mem_map_of_mem hentry)
  have hdiffer : entries.Pairwise fun a b => a.1.text? ≠ b.1.text? := by
    refine h.imp_of_mem fun {a b} ha _ hab heq => ?_
    obtain ⟨name, hname⟩ := hread a ha
    exact hab name hname (heq ▸ hname)
  have hnodup : (names.map some).Pairwise (· ≠ ·) := by
    rw [← htexts]
    exact List.pairwise_map.mpr hdiffer
  exact hnodup.of_map some fun _ _ hne heq => hne (congrArg some heq)

/-- Keys that read as different names do not read as one. -/
theorem DistinctNames.of_nodup {entries : Fields} {names : List String}
    (hnames : Tree.ReadAs (entries.map (·.1)) names) (h : names.Nodup) : DistinctNames entries := by
  have hdiffer : (entries.map (·.1.text?)).Nodup := by
    rw [← Function.comp_def, ← List.map_map, hnames]
    exact List.Pairwise.map some (fun _ _ hne heq => hne (Option.some.inj heq)) h
  refine (List.pairwise_map.mp hdiffer).imp fun hne name hname hname' => ?_
  exact hne (hname.trans hname'.symm)

namespace DistinctProperties

variable {fields entries inner : Fields} {value : Tree}

theorem items (h : DistinctProperties fields) (hkind : StatesKind .array fields)
    (hvalue : fieldValue? "items" fields = some value) (hinner : value.fields? = some inner) :
    DistinctProperties inner :=
  fun _ _ _ _ hleads => h _ _ _ _ (.items hkind hvalue hinner hleads)

theorem property {entry : Tree × Tree} {name : String} (h : DistinctProperties fields)
    (hkind : StatesKind .object fields) (hvalue : fieldValue? "properties" fields = some value)
    (hentries : value.fields? = some entries) (hentry : entry ∈ entries)
    (hname : entry.1.text? = some name) (hinner : entry.2.fields? = some inner) :
    DistinctProperties inner :=
  fun _ _ _ _ hleads =>
    h _ _ _ _ (.property hkind hvalue hentries hentry hname hinner hleads)

/-- A body is such if its own properties are stated once and the bodies written in place in it are
such. -/
theorem intro
    (hown : ∀ value entries, fieldValue? "properties" fields = some value →
      value.fields? = some entries → DistinctNames entries ∧
        ∀ entry ∈ entries, ∀ inner, entry.2.fields? = some inner → DistinctProperties inner)
    (hitems : ∀ value inner, fieldValue? "items" fields = some value →
      value.fields? = some inner → DistinctProperties inner) : DistinctProperties fields := by
  intro path body value entries hleads
  cases hleads with
  | here => exact fun hvalue hentries => (hown _ _ hvalue hentries).1
  | items _ hvalue hinner hleads => exact hitems _ _ hvalue hinner _ _ _ _ hleads
  | property _ hvalue hentries hentry _ hinner hleads =>
    exact (hown _ _ hvalue hentries).2 _ hentry _ hinner _ _ _ _ hleads

theorem of_no_types (hproperties : fieldValue? "properties" fields = none)
    (hitems : fieldValue? "items" fields = none) : DistinctProperties fields := by
  refine .intro (fun value entries hvalue _ => ?_) (fun value inner hvalue _ => ?_)
  · cases hproperties.symm.trans hvalue
  · cases hitems.symm.trans hvalue

section Stated

variable {stated : List (String × TypeExpr)} (h : DistinctProperties fields)
  (hvalue : fieldValue? "properties" fields = some value) (hentries : value.fields? = some entries)
  (hstated : List.Forall₂ ReadsProperty entries stated)

include h hvalue hentries hstated

theorem nodup_stated : (stated.map (·.1)).Nodup := by
  have hnames : DistinctNames entries := h _ _ _ _ .here hvalue hentries
  exact hnames.nodup (readAs_of_readsProperties hstated)

/-- What the entries of a body state are its properties. -/
theorem collectProperties_eq : collectProperties stated = stated :=
  collectProperties_of_nodup (h.nodup_stated hvalue hentries hstated)

end Stated

end DistinctProperties

end TypeTable
