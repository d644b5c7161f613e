import Mathlib.Data.List.Forall2

/-!
# Lists, options and outcomes that correspond

Two lists correspond when they are of one length and their elements are related in order
(`List.Forall₂`), and two options when both are nothing or their values are related (`Option.Rel`).
What entries state corresponds to the entries in the first way, and what look-ups in the two find in
the second. Two outcomes correspond when both are values that are related, or errors that are
(`Except.Rel`): so do those of two runs that differ in some input.
-/

namespace List

variable {α β : Type} {R : α → β → Prop}

theorem isEmpty_eq_of_length_eq {xs : List α} {ys : List β} (h : xs.length = ys.length) :
    xs.isEmpty = ys.isEmpty := by
  rw [Bool.eq_iff_iff, isEmpty_iff_length_eq_zero, isEmpty_iff_length_eq_zero, h]

/-- A list corresponds to some list when each of its elements is related to something. -/
theorem exists_forall₂_iff {xs : List α} : (∃ ys, Forall₂ R xs ys) ↔ ∀ x ∈ xs, ∃ y, R x y := by
  induction xs with
  | nil => simp
  | cons x xs ih =>
    rw [forall_mem_cons, ← ih]
    constructor
    · intro ⟨ys, h⟩
      cases h with
      | cons hfirst hrest => exact ⟨⟨_, hfirst⟩, _, hrest⟩
    · intro ⟨⟨y, hfirst⟩, ys, hrest⟩
      exact ⟨y :: ys, .cons hfirst hrest⟩

theorem Forall₂.exists_of_mem_left {xs : List α} {ys : List β} (h : Forall₂ R xs ys) {x : α}
    (hx : x ∈ xs) : ∃ y ∈ ys, R x y := by
  induction h with
  | nil => cases hx
  | cons hfirst _ ih =>
    rcases mem_cons.mp hx with rfl | hx
    · exact ⟨_, mem_cons_self .., hfirst⟩
    · obtain ⟨y, hy, hxy⟩ := ih hx
      exact ⟨y, mem_cons_of_mem _ hy, hxy⟩

theorem Forall₂.exists_of_mem_right {xs : List α} {ys : List β} (h : Forall₂ R xs ys) {y : β}
    (hy : y ∈ ys) : ∃ x ∈ xs, R x y :=
  h.flip.exists_of_mem_left hy

/-- If each element of a list has a partner in a list that is no longer, and no two have one in
common, then the other list is all partners. -/
theorem exists_of_mem_of_length_le {xs : List α} {ys : List β}
    (hpartner : ∀ x ∈ xs, ∃ y ∈ ys, R x y)
    (hone : xs.Pairwise fun x x' => ∀ y, R x y → ¬ R x' y) (hlength : ys.length ≤ xs.length) :
    ∀ y ∈ ys, ∃ x ∈ xs, R x y := by
  induction xs generalizing ys with
  | nil =>
    intro y hy
    rw [length_eq_zero_iff.mp (Nat.le_zero.mp hlength)] at hy
    cases hy
  | cons x xs ih =>
    obtain ⟨⟨y, hy, hxy⟩, hpartner⟩ := forall_mem_cons.mp hpartner
    obtain ⟨hfirst, hone⟩ := pairwise_cons.mp hone
    obtain ⟨before, after, rfl⟩ := append_of_mem hy
    -- The others have their partners among the elements without `y`.
    have hrest : ∀ x' ∈ xs, ∃ y' ∈ before ++ after, R x' y' := by
      intro x' hx'
      obtain ⟨y', hy', hxy'⟩ := hpartner x' hx'
      refine ⟨y', ?_, hxy'⟩
      have hne : y' ≠ y := fun heq => hfirst x' hx' y hxy (heq ▸ hxy')
      simpa [hne] using hy'
    have hshorter : (before ++ after).length ≤ xs.length := by
      simp only [length_append, length_cons] at hlength ⊢
      omega
    intro y' hy'
    by_cases heq : y' = y
    · exact ⟨x, mem_cons_self .., heq ▸ hxy⟩
    · obtain ⟨x', hx', hxy'⟩ := ih hrest hone hshorter y' (by simpa [heq] using hy')
      exact ⟨x', mem_cons_of_mem _ hx', hxy'⟩

/-- The first element of a list that is related to nothing is the same however the list is split. -/
theorem Forall₂.eq_of_split {before after before' after' : List α} {x x' : α} {ys ys' : List β}
    (hbefore : Forall₂ R before ys) (hx : ∀ y, ¬ R x y) (hbefore' : Forall₂ R before' ys')
    (hx' : ∀ y, ¬ R x' y) (h : before ++ x :: after = before' ++ x' :: after') : x = x' := by
  induction hbefore generalizing before' ys' with
  | nil =>
    cases hbefore' with
    | nil => exact (cons.inj h).1
    | cons hfirst _ =>
      obtain ⟨rfl, -⟩ := cons.inj h
      exact absurd hfirst (hx _)
  | cons hfirst _ ih =>
    cases hbefore' with
    | nil =>
      obtain ⟨rfl, -⟩ := cons.inj h
      exact absurd hfirst (hx' _)
    | cons _ hrest => exact ih hrest (cons.inj h).2

end List

namespace Option

variable {α β γ δ : Type} {R R' : α → β → Prop} {S : γ → δ → Prop} {a : Option α} {b : Option β}

theorem Rel.bind {f : α → Option γ} {g : β → Option δ} (h : Rel R a b)
    (hnext : ∀ x y, R x y → Rel S (f x) (g y)) : Rel S (a.bind f) (b.bind g) := by
  cases h with
  | some hxy => exact hnext _ _ hxy
  | none => exact .none

theorem Rel.imp (h : Rel R a b) (hvalue : ∀ x y, a = Option.some x → R x y → R' x y) :
    Rel R' a b := by
  cases h with
  | some hxy => exact .some (hvalue _ _ rfl hxy)
  | none => exact .none

theorem Rel.exists_of_eq_some {y : β} (h : Rel R a b) (hb : b = Option.some y) :
    ∃ x, a = Option.some x ∧ R x y := by
  cases h with
  | some hxy =>
    cases hb
    exact ⟨_, rfl, hxy⟩
  | none => cases hb

theorem Rel.eq_none (h : Rel R a b) (hb : b = Option.none) : a = Option.none := by
  cases h with
  | some _ => cases hb
  | none => rfl

end Option

namespace Except

variable {ε ε' α β γ δ : Type}

theorem map_eq_ok_iff {f : α → β} {x : Except ε α} {b : β} :
    x.map f = .ok b ↔ ∃ a, x = .ok a ∧ b = f a := by
  cases x <;> simp [Except.map, eq_comm (b := b)]

theorem map_eq_error_iff {f : α → β} {x : Except ε α} {e : ε} :
    x.map f = .error e ↔ x = .error e := by
  cases x <;> simp [Except.map]

/-- Two outcomes that correspond. -/
inductive Rel (E : ε → ε' → Prop) (R : α → β → Prop) : Except ε α → Except ε' β → Prop
  | ok {a : α} {b : β} (h : R a b) : Rel E R (.ok a) (.ok b)
  | error {e : ε} {e' : ε'} (h : E e e') : Rel E R (.error e) (.error e')

namespace Rel

variable {E E' : ε → ε' → Prop} {R R' : α → β → Prop} {S : γ → δ → Prop} {x : Except ε α}
  {y : Except ε' β}

theorem bind {f : α → Except ε γ} {g : β → Except ε' δ} (h : Rel E R x y)
    (hnext : ∀ a b, R a b → Rel E S (f a) (g b)) : Rel E S (x.bind f) (y.bind g) := by
  cases h with
  | ok hab => exact hnext _ _ hab
  | error herror => exact .error herror

theorem imp (h : Rel E R x y) (herror : ∀ e e', E e e' → E' e e') (hvalue : ∀ a b, R a b → R' a b) :
    Rel E' R' x y := by
  cases h with
  | ok hab => exact .ok (hvalue _ _ hab)
  | error he => exact .error (herror _ _ he)

/-- Of values that correspond the first is known to be that of its outcome. -/
theorem with_left (h : Rel E R x y) : Rel E (fun a b => x = .ok a ∧ R a b) x y := by
  cases h with
  | ok hab => exact .ok ⟨rfl, hab⟩
  | error he => exact .error he

theorem exists_of_eq_ok {a : α} (h : Rel E R x y) (hx : x = .ok a) : ∃ b, y = .ok b ∧ R a b := by
  cases h with
  | ok hab =>
    cases hx
    exact ⟨_, rfl, hab⟩
  | error _ => cases hx

theorem exists_of_eq_error {e : ε} (h : Rel E R x y) (hx : x = .error e) :
    ∃ e', y = .error e' ∧ E e e' := by
  cases h with
  | ok _ => cases hx
  | error he =>
    cases hx
    exact ⟨_, rfl, he⟩

theorem exists_ok_iff (h : Rel E R x y) : (∃ a, x = .ok a) ↔ ∃ b, y = .ok b := by
  cases h with
  | ok hab => exact ⟨fun _ => ⟨_, rfl⟩, fun _ => ⟨_, rfl⟩⟩
  | error _ => exact ⟨nofun, nofun⟩

end Rel

end Except
