import TypeTable.Proofs.Definition.Children
import TypeTable.Proofs.Definition.Order
import TypeTable.Proofs.Definition.WellFormed

/-!
# Equal definitions

Where no object in them states a property or a required name twice, definitions are lawful: each is
equal to itself, and equal definitions to the same ones (`Definition.WithoutRepeats.lawful`). That
holds of what is well formed (`Definition.WellFormed.withoutRepeats`). Equal definitions answer
alike all that they are asked (`Definition.agrees_of_same`), and refer to the same names
(`Shape.holds_of_same`).
-/

namespace TypeTable

/-! ## Required names -/

section Names

variable {names others : List String}

theorem mem_iff_of_sameNames (hnodup : names.Nodup) (h : sameNames names others = true)
    (name : String) : name ∈ names ↔ name ∈ others := by
  obtain ⟨hlength, hall⟩ := Bool.and_eq_true_iff.mp h
  have hsubset : ∀ name ∈ names, ∃ other ∈ others, name = other := by
    simpa using hall
  have hback : ∀ other ∈ others, ∃ name ∈ names, name = other := by
    refine List.exists_of_mem_of_length_le hsubset ?_ (Nat.le_of_eq (eq_of_beq hlength).symm)
    exact hnodup.imp fun hne _ heq heq' => hne (heq.trans heq'.symm)
  constructor
  · intro hname
    obtain ⟨_, hother, rfl⟩ := hsubset name hname
    exact hother
  · intro hname
    obtain ⟨_, hother, rfl⟩ := hback name hname
    exact hother

theorem sameNames_congr (hnodup : names.Nodup) (h : sameNames names others = true) :
    sameNames names = sameNames others := by
  funext third
  have hlength := eq_of_beq (Bool.and_eq_true_iff.mp h).1
  rw [sameNames, sameNames, hlength, Bool.eq_iff_iff, Bool.and_eq_true, Bool.and_eq_true,
    List.all_eq_true, List.all_eq_true]
  simp only [mem_iff_of_sameNames hnodup h]

end Names

/-! ## Properties -/

section Properties

variable {properties others : List (String × TypeExpr)}

theorem mem_of_lookup {name : String} {type : TypeExpr} (h : properties.lookup name = some type) :
    (name, type) ∈ properties := by
  obtain ⟨before, after, rfl, -⟩ := List.lookup_eq_some_iff.mp h
  simp

theorem exists_same_of_mem (h : sameProperties properties others = true) :
    ∀ property ∈ properties, ∃ other ∈ others, SameProperty property other := by
  intro property hproperty
  obtain ⟨type, htype, hsame⟩ := sameProperties_iff.mp h property hproperty
  exact ⟨_, mem_of_lookup htype, rfl, hsame⟩

variable (hnodup : (properties.map (·.1)).Nodup) (hlength : properties.length = others.length)
  (h : sameProperties properties others = true)

include hnodup hlength h

/-- No two properties have a partner in common, so every property of the other list is one. -/
theorem exists_same_of_mem_right :
    ∀ other ∈ others, ∃ property ∈ properties, SameProperty property other := by
  refine List.exists_of_mem_of_length_le (exists_same_of_mem h) ?_ (Nat.le_of_eq hlength.symm)
  exact (List.pairwise_map.mp hnodup).imp fun hne _ hsame hsame' =>
    hne (hsame.1.symm.trans hsame'.1)

/-- Equal lists of properties have equal types under each name, or both have none. -/
theorem rel_lookup_of_same (name : String) :
    Option.Rel (fun t u => TypeExpr.same t u = true) (properties.lookup name)
      (others.lookup name) := by
  cases htype : properties.lookup name with
  | some type =>
    obtain ⟨_, hother, hsame⟩ := sameProperties_iff.mp h _ (mem_of_lookup htype)
    rw [hother]
    exact .some hsame
  | none =>
    cases hother : others.lookup name with
    | none => exact .none
    | some type =>
      obtain ⟨property, hproperty, rfl, -⟩ :=
        exists_same_of_mem_right hnodup hlength h _ (mem_of_lookup hother)
      cases (lookup_of_mem hnodup hproperty).symm.trans htype

/-- Properties are equal to the same properties as equal ones, if their types are lawful. -/
theorem sameProperties_congr
    (htypes : ∀ property ∈ properties, Lawful TypeExpr.same property.2) :
    sameProperties properties = sameProperties others := by
  have heq : ∀ property ∈ properties, ∀ other, SameProperty property other →
      property.2.same = other.2.same :=
    fun property hproperty other hsame => (htypes property hproperty).congr other.2 hsame.2
  funext third
  rw [Bool.eq_iff_iff, sameProperties_iff, sameProperties_iff]
  constructor
  · intro hthird other hother
    obtain ⟨property, hproperty, hsame⟩ := exists_same_of_mem_right hnodup hlength h other hother
    rw [hsame.1, ← heq property hproperty other hsame]
    exact hthird property hproperty
  · intro hthird property hproperty
    obtain ⟨other, hother, hsame⟩ := exists_same_of_mem h property hproperty
    rw [← hsame.1, heq property hproperty other hsame]
    exact hthird other hother

end Properties

/-! ## Types without repeats -/

mutual

/-- No object in a shape, at any depth, has two properties of one name or requires a name twice. -/
inductive Shape.WithoutRepeats : Shape → Prop
  | int {format : IntFormat} : Shape.WithoutRepeats (.int format)
  | number {format : NumberFormat} : Shape.WithoutRepeats (.number format)
  | bool : Shape.WithoutRepeats .bool
  | string {values : Option (List String)} : Shape.WithoutRepeats (.string values)
  | array {container : Container} {element : TypeExpr}
    (helement : TypeExpr.WithoutRepeats element) : Shape.WithoutRepeats (.array container element)
  | object {properties : List (String × TypeExpr)} {required : List String}
    (distinct : (properties.map (·.1)).Nodup)
    (types : ∀ property ∈ properties, TypeExpr.WithoutRepeats property.2)
    (once : required.Nodup) : Shape.WithoutRepeats (.object properties required)

/-- No object in a type written in place, at any depth, has such repeats. -/
inductive TypeExpr.WithoutRepeats : TypeExpr → Prop
  | named {target : String} : TypeExpr.WithoutRepeats (.named target)
  | inline {header : Header} {shape : Shape} (hshape : Shape.WithoutRepeats shape) :
    TypeExpr.WithoutRepeats (.inline header shape)

end

/-- A definition in whose shape there are no repeats. -/
def Definition.WithoutRepeats (d : Definition) : Prop :=
  d.shape.WithoutRepeats

theorem withoutRepeats_of_wellFormed :
    (∀ (shape : Shape) name, shape.WellFormed name → shape.WithoutRepeats) ∧
      ∀ (type : TypeExpr) name, type.WellFormed name → type.WithoutRepeats := by
  apply type_induction
  case shape =>
    intro shape ih name h
    cases h with
    | int => exact .int
    | number => exact .number
    | bool => exact .bool
    | string | enumeration => exact .string
    | array helement => exact .array (ih _ (List.mem_singleton_self _) _ helement)
    | object _ hdistinct htypes honce =>
      exact .object hdistinct (fun property hproperty =>
        ih _ (List.mem_map_of_mem hproperty) _ (htypes property hproperty)) honce
  case named =>
    intro target name _
    exact .named
  case inline =>
    intro header shape ih name h
    cases h with
    | inline _ hshape => exact .inline (ih _ hshape)

/-- Nothing is repeated in a definition that is well formed. -/
theorem Definition.WellFormed.withoutRepeats {d : Definition} (h : d.WellFormed) :
    d.WithoutRepeats :=
  withoutRepeats_of_wellFormed.1 d.shape d.name h

/-! ## Equality is lawful -/

/-- A shape that holds no types is equal to itself only. -/
theorem Shape.eq_of_same {shape other : Shape} (harray : shape.kind ≠ .array)
    (hobject : shape.kind ≠ .object) (h : shape.same other = true) : shape = other := by
  cases shape with
  | array => exact absurd rfl harray
  | object => exact absurd rfl hobject
  | _ => cases other <;> simp_all [Shape.same]

theorem Lawful.array {container : Container} {element : TypeExpr}
    (h : Lawful TypeExpr.same element) : Lawful Shape.same (.array container element) := by
  constructor
  · rw [Shape.same, beq_self_eq_true, h.self, Bool.and_self]
  · intro other hother
    cases other with
    | array container' element' =>
      obtain ⟨hcontainer, helement⟩ := Bool.and_eq_true_iff.mp hother
      funext third
      cases third with
      | array => rw [Shape.same, Shape.same, eq_of_beq hcontainer, h.congr _ helement]
      | _ => rfl
    | _ => cases hother

theorem Lawful.object {properties : List (String × TypeExpr)} {required : List String}
    (hdistinct : (properties.map (·.1)).Nodup) (honce : required.Nodup)
    (htypes : ∀ property ∈ properties, Lawful TypeExpr.same property.2) :
    Lawful Shape.same (.object properties required) := by
  constructor
  · have hself : sameProperties properties properties = true := by
      refine sameProperties_of_exists hdistinct fun property hproperty => ?_
      exact ⟨property, hproperty, rfl, (htypes property hproperty).self⟩
    rw [Shape.same, beq_self_eq_true, hself, sameNames_self]
    rfl
  · intro other hother
    cases other with
    | object properties' required' =>
      obtain ⟨hfirst, hnames⟩ := Bool.and_eq_true_iff.mp hother
      obtain ⟨hlength, hproperties⟩ := Bool.and_eq_true_iff.mp hfirst
      have hlength := eq_of_beq hlength
      funext third
      cases third with
      | object =>
        rw [Shape.same, Shape.same, hlength, sameNames_congr honce hnames,
          sameProperties_congr hdistinct hlength hproperties htypes]
      | _ => rfl
    | _ => cases hother

theorem Lawful.inline {header : Header} {shape : Shape} (h : Lawful Shape.same shape) :
    Lawful TypeExpr.same (.inline header shape) := by
  constructor
  · rw [TypeExpr.same, beq_self_eq_true, h.self, Bool.and_self]
  · intro other hother
    cases other with
    | inline header' shape' =>
      obtain ⟨hheader, hshape⟩ := Bool.and_eq_true_iff.mp hother
      funext third
      cases third with
      | inline => rw [TypeExpr.same, TypeExpr.same, eq_of_beq hheader, h.congr _ hshape]
      | named => rfl
    | named => cases hother

/-- By induction over types: an object is lawful if the types of its properties are. -/
theorem lawful_of_withoutRepeats :
    (∀ shape : Shape, shape.WithoutRepeats → Lawful Shape.same shape) ∧
      ∀ type : TypeExpr, type.WithoutRepeats → Lawful TypeExpr.same type := by
  apply type_induction
  case shape =>
    intro shape ih h
    cases h with
    | int | number | bool | string =>
      refine ⟨by simp [Shape.same], fun other hother => ?_⟩
      rw [Shape.eq_of_same (by simp [Shape.kind]) (by simp [Shape.kind]) hother]
    | array helement => exact .array (ih _ (List.mem_singleton_self _) helement)
    | object hdistinct htypes honce =>
      exact .object hdistinct honce fun property hproperty =>
        ih _ (List.mem_map_of_mem hproperty) (htypes property hproperty)
  case named =>
    intro target _
    refine ⟨beq_self_eq_true _, fun other hother => ?_⟩
    cases other with
    | named => rw [eq_of_beq hother]
    | inline => cases hother
  case inline =>
    intro header shape ih h
    cases h with
    | inline hshape => exact .inline (ih hshape)

/-- Of definitions without repeats, equality is an equivalence. -/
theorem Definition.WithoutRepeats.lawful {d : Definition} (h : d.WithoutRepeats) :
    Lawful Definition.same d := by
  have hshape := lawful_of_withoutRepeats.1 d.shape h
  constructor
  · rw [Definition.same, beq_self_eq_true, hshape.self, Bool.and_self]
  · intro e he
    obtain ⟨hheader, hsame⟩ := Bool.and_eq_true_iff.mp he
    funext f
    rw [Definition.same, Definition.same, eq_of_beq hheader, hshape.congr _ hsame]

/-! ## What equal definitions answer -/

/-- Two definitions that answer alike all that they are asked: what they are, what they require and
allow, and what each step leads to. -/
structure Definition.Agrees (d e : Definition) : Prop where
  kind : d.kind = e.kind
  name : d.name = e.name
  description : d.description = e.description
  requires? : ∀ property, d.requires? property = e.requires? property
  enumerates? : ∀ value, d.enumerates? value = e.enumerates? value
  held? : ∀ step, Option.Rel (fun t u => TypeExpr.same t u = true) (d.shape.held? step)
    (e.shape.held? step)

theorem Definition.agrees_of_same {d e : Definition} (hd : d.WithoutRepeats)
    (h : d.same e = true) : d.Agrees e := by
  obtain ⟨header, shape⟩ := d
  obtain ⟨header', shape'⟩ := e
  obtain ⟨hheader, hshape⟩ := Bool.and_eq_true_iff.mp h
  obtain rfl : header = header' := eq_of_beq hheader
  have hkind : shape.kind = shape'.kind := Shape.kind_eq_of_same hshape
  cases hd with
  | int | number | bool | string =>
    obtain rfl := Shape.eq_of_same (by simp [Shape.kind]) (by simp [Shape.kind]) hshape
    exact ⟨rfl, rfl, rfl, fun _ => rfl, fun _ => rfl, fun _ => .none⟩
  | array =>
    cases shape' with
    | array container' element' =>
      refine ⟨rfl, rfl, rfl, fun _ => rfl, fun _ => rfl, fun step => ?_⟩
      cases step with
      | items => exact .some (Bool.and_eq_true_iff.mp hshape).2
      | property name => exact .none
    | _ => cases hkind
  | object hdistinct _ honce =>
    cases shape' with
    | object properties' required' =>
      obtain ⟨hfirst, hnames⟩ := Bool.and_eq_true_iff.mp hshape
      obtain ⟨hlength, hproperties⟩ := Bool.and_eq_true_iff.mp hfirst
      refine ⟨rfl, rfl, rfl, fun property => ?_, fun _ => rfl, fun step => ?_⟩
      · have hmem := mem_iff_of_sameNames honce hnames property
        rw [Definition.requires?, Definition.requires?, Option.some.injEq, Bool.eq_iff_iff,
          List.contains_iff_mem, List.contains_iff_mem, hmem]
      · cases step with
        | items => exact .none
        | property name =>
          exact rel_lookup_of_same hdistinct (eq_of_beq hlength) hproperties name
    | _ => cases hkind

/-! ## References in equal shapes -/

theorem exists_child_of_same {shape other : Shape} (h : shape.same other = true) :
    ∀ child ∈ shape.children, ∃ child' ∈ other.children, child.same child' = true := by
  have hkind := Shape.kind_eq_of_same h
  cases shape with
  | array container element =>
    cases other with
    | array container' element' =>
      intro child hchild
      rw [List.mem_singleton.mp hchild]
      exact ⟨element', List.mem_singleton_self _, (Bool.and_eq_true_iff.mp h).2⟩
    | _ => cases hkind
  | object properties required =>
    cases other with
    | object properties' required' =>
      obtain ⟨hfirst, -⟩ := Bool.and_eq_true_iff.mp h
      intro child hchild
      obtain ⟨property, hproperty, rfl⟩ := List.mem_map.mp hchild
      obtain ⟨other, hother, hsame⟩ :=
        exists_same_of_mem (Bool.and_eq_true_iff.mp hfirst).2 property hproperty
      exact ⟨other.2, List.mem_map_of_mem hother, hsame.2⟩
    | _ => cases hkind
  | _ => nofun

/-- What a shape refers to, an equal shape refers to as well. -/
theorem Shape.holds_of_same {shape other : Shape} {name : String} (h : shape.same other = true)
    (hholds : shape.Holds (.named name)) : other.Holds (.named name) := by
  generalize htype : TypeExpr.named name = type at hholds
  induction hholds generalizing other with
  | child hchild =>
    obtain ⟨child', hchild', hsame⟩ := exists_child_of_same h _ hchild
    subst htype
    cases child' with
    | named target =>
      rw [eq_of_beq hsame]
      exact .child hchild'
    | inline => cases hsame
  | inner hchild _ ih =>
    obtain ⟨child', hchild', hsame⟩ := exists_child_of_same h _ hchild
    cases child' with
    | named => cases hsame
    | inline header' inner' => exact .inner hchild' (ih (Bool.and_eq_true_iff.mp hsame).2 htype)

end TypeTable
