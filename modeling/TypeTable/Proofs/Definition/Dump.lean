import TypeTable.Definition.Dump
import TypeTable.Proofs.Definition.Children

/-!
# Types are known by their JSON

A type is the only one with its JSON value: `Definition.toJson_inj`. The kind comes first and tells
which members belong to the shape, and none of these is called like the description, so it shows
where the header ends (`Header.append_members_inj`).
-/

namespace TypeTable

/-! ## Headers and words -/

theorem word_inj {α : Type} [Spelled α] {a b : α} : word a = word b ↔ a = b :=
  ⟨Spelled.word_injective, congrArg word⟩

theorem Json.texts_inj {values others : List String} :
    Json.texts values = Json.texts others ↔ values = others := by
  rw [Json.texts, Json.texts, Json.list.injEq]
  exact List.map_inj_right fun _ _ => Json.text.inj

/-- The members of a shape are called like the fields that its kind has. -/
theorem Shape.keys_members_subset (shape : Shape) :
    shape.members.map (·.1) ⊆ shape.kind.ownFields := by
  cases shape with
  | string values =>
    cases values with
    | none => exact List.nil_subset _
    | some values => exact List.Subset.refl _
  | _ => exact List.Subset.refl _

theorem Shape.ne_description_of_mem_members {shape : Shape} {member : String × Json}
    (h : member ∈ shape.members) : member.1 ≠ "description" := by
  have hown : ∀ field ∈ shape.kind.ownFields, field ≠ "description" := by
    cases shape.kind <;> decide
  exact hown member.1 (shape.keys_members_subset (List.mem_map_of_mem h))

/-- The members of a header are known with others behind them, none of which is a description. -/
theorem Header.append_members_inj {header other : Header} {members others : List (String × Json)}
    (hmembers : ∀ member ∈ members, member.1 ≠ "description")
    (hothers : ∀ member ∈ others, member.1 ≠ "description")
    (h : header.members ++ members = other.members ++ others) :
    header = other ∧ members = others := by
  obtain ⟨name, description⟩ := header
  obtain ⟨otherName, otherDescription⟩ := other
  cases description with
  | none =>
    cases otherDescription with
    | none =>
      obtain ⟨hname, hrest⟩ := List.cons.inj h
      cases hname
      exact ⟨rfl, hrest⟩
    | some text =>
      have hrest : members = ("description", .text text) :: others := (List.cons.inj h).2
      exact absurd rfl (hmembers ("description", .text text) (hrest ▸ List.mem_cons_self ..))
  | some text =>
    cases otherDescription with
    | none =>
      have hrest : ("description", .text text) :: members = others := (List.cons.inj h).2
      exact absurd rfl (hothers ("description", .text text) (hrest ▸ List.mem_cons_self ..))
    | some otherText =>
      obtain ⟨hname, hbehind⟩ := List.cons.inj h
      obtain ⟨htext, hrest⟩ := List.cons.inj hbehind
      cases hname
      cases htext
      exact ⟨rfl, hrest⟩

/-! ## Shapes and type expressions -/

/-- Properties are known by their members if their types are known by their values. -/
theorem propertyMembers_inj {properties others : List (String × TypeExpr)}
    (htypes : ∀ property ∈ properties, ∀ type : TypeExpr,
      property.2.toJson = type.toJson → property.2 = type)
    (h : propertyMembers properties = propertyMembers others) : properties = others := by
  induction properties generalizing others with
  | nil =>
    cases others with
    | nil => rfl
    | cons other others => cases h
  | cons property rest ih =>
    cases others with
    | nil => cases h
    | cons other others =>
      obtain ⟨hfirst, hrest⟩ := List.cons.inj h
      obtain ⟨hname, hvalue⟩ := Prod.mk.inj hfirst
      have htype := htypes property (List.mem_cons_self ..) other.2 hvalue
      rw [Prod.ext hname htype,
        ih (fun property hproperty => htypes property (List.mem_cons_of_mem _ hproperty)) hrest]

/-- A shape is known by its kind and its members if its children are known by their values. -/
theorem Shape.members_inj {shape other : Shape}
    (hchildren : ∀ child ∈ shape.children, ∀ type : TypeExpr,
      child.toJson = type.toJson → child = type)
    (hkind : shape.kind = other.kind) (h : shape.members = other.members) : shape = other := by
  cases shape with
  | int format =>
    cases other with
    | int other => simpa [members, word_inj] using h
    | _ => cases hkind
  | number format =>
    cases other with
    | number other => simpa [members, word_inj] using h
    | _ => cases hkind
  | bool =>
    cases other with
    | bool => rfl
    | _ => cases hkind
  | string values =>
    cases other with
    | string others => cases values <;> cases others <;> simp_all [members, Json.texts_inj]
    | _ => cases hkind
  | array container element =>
    cases other with
    | array otherContainer otherElement =>
      simp only [members, List.cons.injEq, Prod.mk.injEq, Json.text.injEq, word_inj, true_and,
        and_true] at h
      rw [h.1, hchildren element (List.mem_singleton_self _) _ h.2]
    | _ => cases hkind
  | object properties required =>
    cases other with
    | object otherProperties otherRequired =>
      simp only [members, List.cons.injEq, Prod.mk.injEq, Json.object.injEq, Json.texts_inj,
        true_and, and_true] at h
      have hproperties := propertyMembers_inj
        (fun property hproperty => hchildren property.2 (List.mem_map_of_mem hproperty)) h.1
      rw [hproperties, h.2]
    | _ => cases hkind

/-- The members of a definition, its kind in front. -/
def Definition.members (d : Definition) : List (String × Json) :=
  ("type", .text (word d.kind)) :: (d.toHeader.members ++ d.shape.members)

theorem Definition.toJson_eq (d : Definition) : d.toJson = .object d.members := rfl

theorem TypeExpr.toJson_inline (header : Header) (shape : Shape) :
    (TypeExpr.inline header shape).toJson =
      .object [("owned", .object (Definition.members ⟨header, shape⟩))] := rfl

/-- The members of a definition tell its header, its kind and the members of its shape. -/
theorem Definition.eq_of_members {d e : Definition} (h : d.members = e.members) :
    d.toHeader = e.toHeader ∧ d.kind = e.kind ∧ d.shape.members = e.shape.members := by
  obtain ⟨hkind, hmembers⟩ := List.cons.inj h
  rw [Prod.mk.injEq, Json.text.injEq, word_inj] at hkind
  obtain ⟨hheader, hshape⟩ := Header.append_members_inj
    (fun _ => Shape.ne_description_of_mem_members) (fun _ => Shape.ne_description_of_mem_members)
    hmembers
  exact ⟨hheader, hkind.2, hshape⟩

theorem toJson_inj :
    (∀ shape other : Shape, shape.kind = other.kind → shape.members = other.members →
      shape = other) ∧
      ∀ type other : TypeExpr, type.toJson = other.toJson → type = other := by
  apply type_induction
  case shape =>
    intro shape ih other
    exact Shape.members_inj ih
  case named =>
    intro name other h
    cases other with
    | named other => simpa [TypeExpr.toJson] using h
    | inline => simp [TypeExpr.toJson] at h
  case inline =>
    intro header shape ih other h
    cases other with
    | named => simp [TypeExpr.toJson] at h
    | inline otherHeader otherShape =>
      rw [TypeExpr.toJson_inline, TypeExpr.toJson_inline] at h
      simp only [Json.object.injEq, List.cons.injEq, Prod.mk.injEq, true_and, and_true] at h
      obtain ⟨hheader, hkind, hmembers⟩ := Definition.eq_of_members h
      rw [ih otherShape hkind hmembers]
      exact congrArg (TypeExpr.inline · otherShape) hheader

/-- A definition is the only one with its JSON value. -/
theorem Definition.toJson_inj {d e : Definition} : d.toJson = e.toJson ↔ d = e := by
  constructor
  · intro h
    rw [toJson_eq, toJson_eq, Json.object.injEq] at h
    obtain ⟨hheader, hkind, hmembers⟩ := eq_of_members h
    have hshape := TypeTable.toJson_inj.1 d.shape e.shape hkind hmembers
    cases d
    cases e
    simp_all
  · intro h
    rw [h]

end TypeTable
