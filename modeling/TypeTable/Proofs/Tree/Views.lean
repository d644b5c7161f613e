import Mathlib.Data.List.Forall2
import TypeTable.Tree.Basic

/-!
# Reading trees

A value reads as at most one sort of thing, whatever tags are around it. `Tree.ReadAs` is about
lists of trees that read as texts. `body_induction` is the induction that reading a definition
follows: from a body to the types that its fields hold, and from a type written in place to its body.
-/

namespace TypeTable

namespace Tree

theorem fields?_eq_none_of_text? {value : Tree} {text : String} (h : value.text? = some text) :
    value.fields? = none := by
  unfold text? at h
  unfold fields?
  split at h
  · next s hs => rw [hs]
  · cases h

theorem isVoid_of_text? {value : Tree} {text : String} (h : value.text? = some text) :
    value.isVoid = text.isEmpty := by
  unfold text? at h
  unfold isVoid
  split at h
  · next s hs =>
    cases h
    rw [hs]
  · cases h

theorem isVoid_of_items? {value : Tree} {items : List Tree} (h : value.items? = some items) :
    value.isVoid = items.isEmpty := by
  unfold items? at h
  unfold isVoid
  split at h
  · next xs hxs =>
    cases h
    rw [hxs]
  · cases h

theorem isVoid_of_fields? {value : Tree} {fields : Fields} (h : value.fields? = some fields) :
    value.isVoid = fields.isEmpty := by
  unfold fields? at h
  unfold isVoid
  split at h
  · next entries hentries =>
    cases h
    rw [hentries]
  · cases h

/-! ## Lists of texts -/

/-- The trees read as the texts, one as one. -/
def ReadAs (trees : List Tree) (texts : List String) : Prop :=
  trees.map text? = texts.map some

@[simp] theorem readAs_nil_left {texts : List String} : ReadAs [] texts ↔ texts = [] := by
  cases texts <;> simp [ReadAs]

theorem readAs_cons_left {tree : Tree} {trees : List Tree} {texts : List String} :
    ReadAs (tree :: trees) texts ↔
      ∃ text rest, tree.text? = some text ∧ ReadAs trees rest ∧ texts = text :: rest := by
  cases texts with
  | nil => simp [ReadAs]
  | cons text rest => simp [ReadAs]

@[simp] theorem readAs_append {trees others : List Tree} {texts words : List String}
    (h : ReadAs trees texts) : ReadAs (trees ++ others) (texts ++ words) ↔ ReadAs others words := by
  unfold ReadAs at *
  rw [List.map_append, List.map_append, h, List.append_cancel_left_eq]

theorem ReadAs.eq_nil_iff {trees : List Tree} {texts : List String} (h : ReadAs trees texts) :
    trees = [] ↔ texts = [] := by
  have hlength := congrArg List.length h
  simp only [List.length_map] at hlength
  rw [← List.length_eq_zero_iff, ← List.length_eq_zero_iff, hlength]

/-- A list of trees reads as at most one list of texts. -/
theorem ReadAs.unique {trees : List Tree} {texts others : List String} (h : ReadAs trees texts)
    (hother : ReadAs trees others) : texts = others :=
  (List.map_inj_right fun _ _ => Option.some.inj).mp (h.symm.trans hother)

theorem ReadAs.mem_iff {trees : List Tree} {texts : List String} (h : ReadAs trees texts)
    {text : String} : text ∈ texts ↔ ∃ tree ∈ trees, tree.text? = some text := by
  have hmem : some text ∈ texts.map some ↔ some text ∈ trees.map text? := by rw [h]
  simpa using hmem

/-- The keys of entries read as the names of what the entries state, if each one does. -/
theorem readAs_of_forall₂ {α : Type} {states : Tree × Tree → α → Prop} {name : α → String}
    (hname : ∀ entry stated, states entry stated → entry.1.text? = some (name stated))
    {entries : Fields} {stated : List α} (h : List.Forall₂ states entries stated) :
    ReadAs (entries.map (·.1)) (stated.map name) := by
  induction h with
  | nil => rfl
  | cons hfirst _ ih =>
    have hkey := hname _ _ hfirst
    exact readAs_cons_left.mpr ⟨_, _, hkey, ih, rfl⟩

/-- Trees that are texts read as these. -/
theorem readAs_map_text (texts : List String) : ReadAs (texts.map text) texts := by
  rw [ReadAs, List.map_map]
  rfl

/-- Trees that read as texts one by one do so together. -/
theorem exists_readAs_iff {trees : List Tree} :
    (∃ texts, ReadAs trees texts) ↔ ∀ tree ∈ trees, ∃ text, tree.text? = some text := by
  induction trees with
  | nil => simp
  | cons tree trees ih =>
    constructor
    · intro ⟨texts, h⟩
      obtain ⟨text, rest, htext, hrest, -⟩ := readAs_cons_left.mp h
      rw [List.forall_mem_cons]
      exact ⟨⟨text, htext⟩, ih.mp ⟨rest, hrest⟩⟩
    · intro h
      rw [List.forall_mem_cons] at h
      obtain ⟨⟨text, htext⟩, hrest⟩ := h
      obtain ⟨rest, hrest⟩ := ih.mpr hrest
      exact ⟨text :: rest, readAs_cons_left.mpr ⟨text, rest, htext, hrest, rfl⟩⟩

end Tree

/-! ## Induction over bodies -/

/-- Induction over bodies and the values that hold types. A body comes after the values under its
fields `items` and `properties`, and a value after the body it reads as. -/
theorem body_induction {Body : Fields → Prop} {Held : Tree → Prop}
    (body : ∀ fields, (∀ value, fieldValue? "items" fields = some value → Held value) →
      (∀ value entries, fieldValue? "properties" fields = some value →
        value.fields? = some entries → ∀ entry ∈ entries, Held entry.2) → Body fields)
    (held : ∀ value, (∀ fields, value.fields? = some fields → Body fields) → Held value) :
    (∀ fields, Body fields) ∧ ∀ value, Held value := by
  have bodies : ∀ fields, Body fields := by
    intro fields
    induction hsize : sizeOf fields using Nat.strongRecOn generalizing fields with
    | ind size ih =>
      subst hsize
      refine body fields (fun value hvalue => held value fun inner hinner => ?_)
        fun value entries hvalue hentries entry hentry => held entry.2 fun inner hinner => ?_
      · exact ih _ (Nat.lt_trans (Tree.sizeOf_lt_of_fields? hinner)
          (sizeOf_lt_of_fieldValue? hvalue)) inner rfl
      · have hentries := Nat.lt_trans (Tree.sizeOf_lt_of_fields? hentries)
          (sizeOf_lt_of_fieldValue? hvalue)
        have hvalue : sizeOf entry.2 < sizeOf entries := sizeOf_lt_of_mem hentry
        exact ih _ (Nat.lt_trans (Tree.sizeOf_lt_of_fields? hinner)
          (Nat.lt_trans hvalue hentries)) inner rfl
  exact ⟨bodies, fun value => held value fun fields _ => bodies fields⟩

end TypeTable
