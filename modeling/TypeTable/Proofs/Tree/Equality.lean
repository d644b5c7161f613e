import TypeTable.Proofs.Correspondence
import TypeTable.Proofs.Tree.Keys

/-!
# Equal trees

Where no mapping has two equal keys, `Tree.same` is an equivalence: a tree is equal to itself, and
equal trees are equal to the same trees (`Tree.DistinctKeys.lawful`). Two such trees that are equal
are `Tree.Alike`. They read as the same text, and as sequences and mappings of parts that are alike:
`Tree.Alike.text?`, `Tree.Alike.items?`, `Tree.Alike.fields?`. Each entry of a mapping has an alike
entry in an alike mapping (`Tree.Alike.exists_entry`), and each field an alike value
(`Tree.Alike.exists_fieldValue?`).
-/

namespace TypeTable

/-! ## Lawful equality -/

/-- An element that is equal to itself, and to the same elements as any that it is equal to. With
this of every element, equality is an equivalence. -/
structure Lawful {α : Type} (same : α → α → Bool) (a : α) : Prop where
  self : same a a = true
  congr : ∀ b, same a b = true → same a = same b

namespace Lawful

variable {α : Type} {same : α → α → Bool} {a b c : α}

theorem symm (h : Lawful same a) (hab : same a b = true) : same b a = true := by
  rw [← h.congr b hab]
  exact h.self

theorem trans (h : Lawful same a) (hab : same a b = true) (hbc : same b c = true) :
    same a c = true := by
  rw [h.congr b hab]
  exact hbc

end Lawful

theorem Binary64.isZero_eq_of_same {a b : Binary64} (h : a.same b = true) :
    a.isZero = b.isZero := by
  rcases Bool.or_eq_true_iff.mp h with heq | hzero
  · rw [eq_of_beq heq]
  · obtain ⟨ha, hb⟩ := Bool.and_eq_true_iff.mp hzero
    rw [ha, hb]

theorem Binary64.same_congr {a b : Binary64} (h : a.same b = true) (c : Binary64) :
    a.same c = b.same c := by
  rcases Bool.or_eq_true_iff.mp h with heq | hzeros
  · rw [eq_of_beq heq]
  · obtain ⟨ha, hb⟩ := Bool.and_eq_true_iff.mp hzeros
    have hzero : ∀ x : Binary64, x.isZero = true → x.same c = c.isZero := by
      intro x hx
      cases hc : c.isZero with
      | true => rw [same, hx, hc, Bool.and_true, Bool.or_true]
      | false =>
        have hdiffer : x ≠ c := fun heq => by simp [heq, hc] at hx
        rw [same, beq_false_of_ne hdiffer, hc, Bool.and_false, Bool.or_false]
    rw [hzero a ha, hzero b hb]

namespace Tree

theorem sameItems_iff {items others : List Tree} :
    sameItems items others = true ↔
      List.Forall₂ (fun item other => item.same other = true) items others := by
  induction items generalizing others with
  | nil => cases others <;> simp [sameItems]
  | cons item rest ih => cases others <;> simp [sameItems, ih]

theorem sameEntries_iff {entries others : Fields} :
    sameEntries entries others = true ↔
      ∀ entry ∈ entries, ∃ other, (others.find? fun other => entry.1.same other.1) = some other ∧
        entry.2.same other.2 = true := by
  induction entries with
  | nil => simp [sameEntries]
  | cons entry rest ih =>
    rw [sameEntries, Bool.and_eq_true, ih, List.forall_mem_cons]
    cases others.find? fun other => entry.1.same other.1 <;> simp

theorem text?_eq_some_iff {value : Tree} {text : String} :
    value.text? = some text ↔ value.untagged = .text text := by
  unfold text?
  cases value.untagged <;> simp

theorem items?_eq_some_iff {value : Tree} {items : List Tree} :
    value.items? = some items ↔ value.untagged = .seq items := by
  unfold items?
  cases value.untagged <;> simp

theorem fields?_eq_some_iff {value : Tree} {fields : Fields} :
    value.fields? = some fields ↔ value.untagged = .map fields := by
  unfold fields?
  cases value.untagged <;> simp

/-! ## Trees equal to a scalar, a sequence or a mapping -/

section Equal

variable {other : Tree}

theorem text_same_iff {text : String} :
    (Tree.text text).same other = true ↔ other = .text text := by
  cases other <;> simp [same, eq_comm (a := text)]

theorem seq_same_iff {items : List Tree} :
    (seq items).same other = true ↔ ∃ others, other = .seq others ∧
      List.Forall₂ (fun item other => item.same other = true) items others := by
  cases other <;> simp [same, sameItems_iff]

theorem map_same_iff {entries : Fields} :
    (map entries).same other = true ↔
      ∃ others, other = .map others ∧ entries.length = others.length ∧
        sameEntries entries others = true := by
  cases other <;> simp [same]

theorem tagged_same_iff {tag : Tag} {value : Tree} :
    (tagged tag value).same other = true ↔
      ∃ inner, other = .tagged tag inner ∧ value.same inner = true := by
  cases other <;> simp [same, eq_comm (a := tag)]

end Equal

/-! ## Equality without equal keys -/

/-- A tree that is equal to itself, and to the same trees as any tree it is equal to. -/
abbrev Lawful (value : Tree) : Prop :=
  TypeTable.Lawful same value

/-- Different keys of lawful trees have no tree in common that both are equal to. -/
theorem Lawful.not_same {key other third : Tree} (hkey : key.Lawful) (hother : other.Lawful)
    (hdiffer : key.same other = false) (h : key.same third = true) : ¬ other.same third = true := by
  intro hthird
  have heq : key.same = other.same := (hkey.congr third h).trans (hother.congr third hthird).symm
  rw [heq, hother.self] at hdiffer
  cases hdiffer

/-- Two entries with equal keys and equal values. -/
def SameEntry (entry other : Tree × Tree) : Prop :=
  entry.1.same other.1 = true ∧ entry.2.same other.2 = true

theorem exists_sameEntry {entries others : Fields} (h : sameEntries entries others = true) :
    ∀ entry ∈ entries, ∃ other ∈ others, SameEntry entry other := by
  intro entry hentry
  obtain ⟨other, hfind, hvalue⟩ := sameEntries_iff.mp h entry hentry
  have hkey := List.find?_some hfind
  exact ⟨other, List.mem_of_find?_eq_some hfind, hkey, hvalue⟩

section Entries

variable {entries others : Fields} (hdistinct : entries.Pairwise fun a b => a.1.same b.1 = false)
  (hkeys : ∀ entry ∈ entries, entry.1.Lawful) (hvalues : ∀ entry ∈ entries, entry.2.Lawful)

include hdistinct hkeys

theorem exists_sameEntry_of_mem_right (hlength : entries.length = others.length)
    (h : sameEntries entries others = true) :
    ∀ other ∈ others, ∃ entry ∈ entries, SameEntry entry other := by
  refine List.exists_of_mem_of_length_le (exists_sameEntry h) ?_ (Nat.le_of_eq hlength.symm)
  refine hdistinct.imp_of_mem fun ha hb hdiffer other hother hother' => ?_
  exact (hkeys _ ha).not_same (hkeys _ hb) hdiffer hother.1 hother'.1

include hvalues

theorem sameEntries_self : sameEntries entries entries = true := by
  refine sameEntries_iff.mpr fun entry hentry => ⟨entry, ?_, (hvalues entry hentry).self⟩
  have hkey := hkeys entry hentry
  obtain ⟨before, after, rfl⟩ := List.append_of_mem hentry
  refine List.find?_eq_some_iff_append.mpr ⟨hkey.self, before, after, rfl, ?_⟩
  -- An equal key before it would be equal the other way round too, and there the keys differ.
  intro earlier hearlier
  have hdiffer : earlier.1.same entry.1 = false :=
    (List.pairwise_append.mp hdistinct).2.2 earlier hearlier entry (List.mem_cons_self ..)
  rw [Bool.not_eq_true', ← Bool.not_eq_true]
  intro hsame
  rw [← hkey.congr earlier.1 hsame, hkey.self] at hdiffer
  cases hdiffer

/-- Mappings are equal to the same mappings if each entry of one has an equal entry in the other. -/
theorem sameEntries_eq_of_same (hlength : entries.length = others.length)
    (h : sameEntries entries others = true) : sameEntries entries = sameEntries others := by
  have hback := exists_sameEntry_of_mem_right hdistinct hkeys hlength h
  have heq : ∀ entry ∈ entries, ∀ other, SameEntry entry other →
      entry.1.same = other.1.same ∧ entry.2.same = other.2.same :=
    fun entry hentry other hsame => ⟨(hkeys entry hentry).congr other.1 hsame.1,
      (hvalues entry hentry).congr other.2 hsame.2⟩
  funext third
  rw [Bool.eq_iff_iff, sameEntries_iff, sameEntries_iff]
  constructor
  · intro h other hother
    obtain ⟨entry, hentry, hsame⟩ := hback other hother
    obtain ⟨hkey, hvalue⟩ := heq entry hentry other hsame
    rw [← hkey, ← hvalue]
    exact h entry hentry
  · intro hothers entry hentry
    obtain ⟨other, hother, hsame⟩ := exists_sameEntry h entry hentry
    obtain ⟨hkey, hvalue⟩ := heq entry hentry other hsame
    rw [hkey, hvalue]
    exact hothers other hother

theorem Lawful.map : (map entries).Lawful := by
  constructor
  · exact map_same_iff.mpr ⟨entries, rfl, rfl, sameEntries_self hdistinct hkeys hvalues⟩
  · intro other h
    obtain ⟨others, rfl, hlength, h⟩ := map_same_iff.mp h
    have heq := sameEntries_eq_of_same hdistinct hkeys hvalues hlength h
    funext third
    cases third with
    | map third => rw [same, same, hlength, heq]
    | _ => rfl

end Entries

theorem sameItems_congr {items others : List Tree} (hitems : ∀ item ∈ items, item.Lawful)
    (h : List.Forall₂ (fun item other => item.same other = true) items others) :
    sameItems items = sameItems others := by
  funext third
  induction h generalizing third with
  | nil => rfl
  | cons hfirst _ ih =>
    obtain ⟨hitem, hitems⟩ := List.forall_mem_cons.mp hitems
    cases third with
    | nil => rfl
    | cons first rest => rw [sameItems, sameItems, hitem.congr _ hfirst, ih hitems]

theorem Lawful.seq {items : List Tree} (hitems : ∀ item ∈ items, item.Lawful) :
    (seq items).Lawful := by
  constructor
  · refine seq_same_iff.mpr ⟨items, rfl, List.forall₂_same.mpr fun item hitem => ?_⟩
    exact (hitems item hitem).self
  · intro other h
    obtain ⟨others, rfl, hothers⟩ := seq_same_iff.mp h
    funext third
    cases third with
    | seq third => rw [same, same, sameItems_congr hitems hothers]
    | _ => rfl

theorem Lawful.tagged {tag : Tag} {value : Tree} (h : value.Lawful) :
    (tagged tag value).Lawful := by
  constructor
  · exact tagged_same_iff.mpr ⟨value, rfl, h.self⟩
  · intro other hother
    obtain ⟨inner, rfl, hinner⟩ := tagged_same_iff.mp hother
    funext third
    cases third with
    | tagged t third => rw [same, same, h.congr inner hinner]
    | _ => rfl

theorem Lawful.float (value : Binary64) : (float value).Lawful := by
  constructor
  · exact value.same_refl
  · intro other h
    cases other with
    | float other =>
      funext third
      cases third with
      | float third => exact Binary64.same_congr h third
      | _ => rfl
    | _ => cases h

/-- Trees without equal keys are lawful. -/
theorem DistinctKeys.lawful {value : Tree} (h : value.DistinctKeys) : value.Lawful := by
  induction h with
  | null =>
    refine ⟨rfl, fun other h => ?_⟩
    cases other with
    | null => rfl
    | _ => cases h
  | bool | int | text =>
    refine ⟨beq_self_eq_true _, fun other h => ?_⟩
    cases other
    all_goals first | cases h | rw [eq_of_beq h]
  | float value => exact .float value
  | seq _ hitems => exact .seq hitems
  | map hdistinct _ _ hkeys hvalues => exact .map hdistinct hkeys hvalues
  | tagged _ hvalue => exact .tagged hvalue

theorem DistinctKeys.same_symm {value other : Tree} (h : value.DistinctKeys)
    (hsame : value.same other = true) : other.same value = true :=
  h.lawful.symm hsame

/-! ## Alike trees -/

/-- Two trees without equal keys that are equal: they differ in the order of entries, and in nothing
else that counts. -/
structure Alike (value other : Tree) : Prop where
  distinct : value.DistinctKeys
  other_distinct : other.DistinctKeys
  same : value.same other = true

namespace Alike

variable {value other : Tree}

theorem symm (h : value.Alike other) : other.Alike value :=
  ⟨h.other_distinct, h.distinct, h.distinct.same_symm h.same⟩

theorem forall₂ {items others : List Tree} (hitems : ∀ item ∈ items, item.DistinctKeys)
    (hothers : ∀ other ∈ others, other.DistinctKeys)
    (h : List.Forall₂ (fun item other => item.same other = true) items others) :
    List.Forall₂ Alike items others := by
  induction h with
  | nil => exact .nil
  | cons hfirst _ ih =>
    obtain ⟨hitem, hitems⟩ := List.forall_mem_cons.mp hitems
    obtain ⟨hother, hothers⟩ := List.forall_mem_cons.mp hothers
    exact .cons ⟨hitem, hother, hfirst⟩ (ih hitems hothers)

theorem untagged {value other : Tree} (h : value.Alike other) :
    value.untagged.Alike other.untagged := by
  match value with
  | .tagged tag inner =>
    obtain ⟨inner', rfl, hinner⟩ := tagged_same_iff.mp h.same
    obtain ⟨hvalue, hother, -⟩ := h
    cases hvalue with
    | tagged hvalue =>
      cases hother with
      | tagged hother =>
        show inner.untagged.Alike inner'.untagged
        exact untagged ⟨hvalue, hother, hinner⟩
  | .null | .bool _ | .int _ | .float _ | .text _ | .seq _ | .map _ =>
    cases other
    all_goals first | exact h | cases h.same

theorem text? (h : value.Alike other) {text : String} (htext : value.text? = some text) :
    other.text? = some text := by
  rw [text?_eq_some_iff] at htext ⊢
  have hsame := h.untagged.same
  rw [htext] at hsame
  exact text_same_iff.mp hsame

theorem items? (h : value.Alike other) {items : List Tree} (hitems : value.items? = some items) :
    ∃ others, other.items? = some others ∧ List.Forall₂ Alike items others := by
  simp only [items?_eq_some_iff] at hitems ⊢
  obtain ⟨hvalue, hother, hsame⟩ := h.untagged
  rw [hitems] at hvalue hsame
  obtain ⟨others, heq, hsame⟩ := seq_same_iff.mp hsame
  rw [heq] at hother
  refine ⟨others, heq, ?_⟩
  cases hvalue with
  | seq hvalues =>
    cases hother with
    | seq hothers => exact forall₂ hvalues hothers hsame

theorem fields? (h : value.Alike other) {fields : Fields} (hfields : value.fields? = some fields) :
    ∃ others, other.fields? = some others ∧ (map fields).Alike (map others) := by
  simp only [fields?_eq_some_iff] at hfields ⊢
  have halike := h.untagged
  rw [hfields] at halike
  obtain ⟨others, heq, -⟩ := map_same_iff.mp halike.same
  exact ⟨others, heq, heq ▸ halike⟩

theorem isVoid (h : value.Alike other) : value.isVoid = other.isVoid := by
  have hsame := h.untagged.same
  unfold Tree.isVoid
  generalize value.untagged = v at hsame ⊢
  generalize other.untagged = w at hsame ⊢
  cases v with
  | null | tagged =>
    cases w
    all_goals first | rfl | cases hsame
  | bool | int | text =>
    cases w
    all_goals first | rw [eq_of_beq hsame] | cases hsame
  | float x =>
    cases w with
    | float y => exact Binary64.isZero_eq_of_same hsame
    | _ => cases hsame
  | seq items =>
    obtain ⟨others, rfl, hitems⟩ := seq_same_iff.mp hsame
    exact List.isEmpty_eq_of_length_eq hitems.length_eq
  | map entries =>
    obtain ⟨others, rfl, hlength, -⟩ := map_same_iff.mp hsame
    exact List.isEmpty_eq_of_length_eq hlength

/-! ## Alike mappings -/

section Mapping

variable {fields others : Fields}

theorem exists_find? (h : (map fields).Alike (map others)) {entry : Tree × Tree}
    (hentry : entry ∈ fields) :
    ∃ other, (others.find? fun other => entry.1.same other.1) = some other ∧
      entry.1.Alike other.1 ∧ entry.2.Alike other.2 := by
  obtain ⟨hfields, hothers, hsame⟩ := h
  obtain ⟨_, heq, -, hsame⟩ := map_same_iff.mp hsame
  cases heq
  obtain ⟨other, hfind, hvalue⟩ := sameEntries_iff.mp hsame entry hentry
  have hkey := List.find?_some hfind
  have hother := List.mem_of_find?_eq_some hfind
  cases hfields with
  | map _ hkeys hvalues =>
    cases hothers with
    | map _ hkeys' hvalues' =>
      exact ⟨other, hfind, ⟨hkeys entry hentry, hkeys' other hother, hkey⟩,
        ⟨hvalues entry hentry, hvalues' other hother, hvalue⟩⟩

/-- Each entry of a mapping has an entry in an alike one, with an alike key and an alike value. -/
theorem exists_entry (h : (map fields).Alike (map others)) {entry : Tree × Tree}
    (hentry : entry ∈ fields) :
    ∃ other ∈ others, entry.1.Alike other.1 ∧ entry.2.Alike other.2 := by
  obtain ⟨other, hfind, halike⟩ := h.exists_find? hentry
  exact ⟨other, List.mem_of_find?_eq_some hfind, halike⟩

theorem length_eq (h : (map fields).Alike (map others)) : fields.length = others.length := by
  obtain ⟨_, heq, hlength, -⟩ := map_same_iff.mp h.same
  cases heq
  exact hlength

theorem exists_fieldValue? (h : (map fields).Alike (map others)) {name : String} {value : Tree}
    (hvalue : fieldValue? name fields = some value) :
    ∃ other, fieldValue? name others = some other ∧ value.Alike other := by
  obtain ⟨other, hfind, -, halike⟩ := h.exists_find? (mem_of_fieldValue? hvalue)
  have htest : ∀ key : Tree, (Tree.text name).same key = key.isText name := fun key => by
    rw [Bool.eq_iff_iff, text_same_iff, isText_iff]
  simp only [htest] at hfind
  exact ⟨other.2, by rw [fieldValue?, hfind, Option.map_some], halike⟩

/-- What is no field of a mapping is none of an alike one. -/
theorem fieldValue?_eq_none (h : (map fields).Alike (map others)) {name : String}
    (hnone : fieldValue? name fields = none) : fieldValue? name others = none := by
  rw [Option.eq_none_iff_forall_ne_some] at hnone ⊢
  intro other hother
  obtain ⟨value, hvalue, -⟩ := h.symm.exists_fieldValue? hother
  exact hnone value hvalue

/-- What the entries of a mapping state, those of an alike mapping state too, each perhaps in
another place, if alike entries do. -/
theorem exists_stated {α : Type} {states : Tree × Tree → α → Prop} {R : α → α → Prop}
    {stated : List α} (h : (map fields).Alike (map others))
    (hstated : List.Forall₂ states fields stated)
    (hunique : ∀ entry a b, states entry a → states entry b → a = b)
    (heach : ∀ entry ∈ fields, ∀ other ∈ others, entry.1.Alike other.1 → entry.2.Alike other.2 →
      ∀ a, states entry a → ∃ b, states other b ∧ R a b) :
    ∃ stated', List.Forall₂ states others stated' ∧ ∀ a ∈ stated, ∃ b ∈ stated', R a b := by
  -- Each entry of the other mapping has an entry here, so all of them state something.
  obtain ⟨stated', hstated'⟩ : ∃ stated', List.Forall₂ states others stated' := by
    refine List.exists_forall₂_iff.mpr fun other hother => ?_
    obtain ⟨entry, hentry, hkey, hvalue⟩ := h.symm.exists_entry hother
    obtain ⟨a, -, ha⟩ := hstated.exists_of_mem_left hentry
    obtain ⟨b, hb, -⟩ := heach entry hentry other hother hkey.symm hvalue.symm a ha
    exact ⟨b, hb⟩
  refine ⟨stated', hstated', fun a ha => ?_⟩
  obtain ⟨entry, hentry, hstates⟩ := hstated.exists_of_mem_right ha
  obtain ⟨other, hother, hkey, hvalue⟩ := h.exists_entry hentry
  obtain ⟨b, hb, hab⟩ := heach entry hentry other hother hkey hvalue a hstates
  obtain ⟨b', hmem, hb'⟩ := hstated'.exists_of_mem_left hother
  exact ⟨b', hmem, hunique other b b' hb hb' ▸ hab⟩

end Mapping

end Alike

end Tree

end TypeTable
