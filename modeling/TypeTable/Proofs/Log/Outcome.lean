import TypeTable.Log.Traced
import TypeTable.Proofs.Correspondence

/-!
# Outcomes and events of sequences

When a sequence of two computations ends in a value (`Traced.outcome_bind_eq_ok_iff`), and when it
ends in an error (`Traced.outcome_bind_eq_error_iff`), whatever it reports. It reports events of one
sort only if both of its parts do (`Traced.Reports.bind`). With its errors made others a sequence is
the sequence of its parts with theirs (`Traced.mapError_bind`).
-/

namespace TypeTable.Traced

variable {ε α β : Type}

@[simp] theorem outcome_ofExcept (x : Except ε α) : (ofExcept x).outcome = x := rfl

theorem lift_ok (a : α) : (liftM (Except.ok a : Except ε α) : Traced ε α) = pure a := rfl

/-- A sequence ends in a value when both of its parts do. -/
theorem outcome_bind_eq_ok_iff {x : Traced ε α} {f : α → Traced ε β} {b : β} :
    (x >>= f).outcome = .ok b ↔ ∃ a, x.outcome = .ok a ∧ (f a).outcome = .ok b := by
  rw [outcome_bind]
  cases x.outcome with
  | error fault => simp [Except.bind]
  | ok a => simp [Except.bind]

/-- A sequence ends in an error when its first part does, or its second part behind a value. -/
theorem outcome_bind_eq_error_iff {x : Traced ε α} {f : α → Traced ε β} {fault : ε} :
    (x >>= f).outcome = .error fault ↔
      x.outcome = .error fault ∨ ∃ a, x.outcome = .ok a ∧ (f a).outcome = .error fault := by
  rw [outcome_bind]
  cases x.outcome with
  | error other => simp [Except.bind]
  | ok a => simp [Except.bind]

/-- A computation whose value is put into another one ends in that, or in its error. -/
theorem outcome_bind_pure (x : Traced ε α) (k : α → β) :
    (x >>= fun a => pure (k a)).outcome = x.outcome.map k := by
  rw [outcome_bind]
  cases x.outcome <;> rfl

/-- Two sequences end alike, with other values, if their first parts do, and their second parts do
behind the values of these. -/
theorem outcome_bind_map {α' β' : Type} {x : Traced ε α} {x' : Traced ε α'} {f : α → Traced ε β}
    {f' : α' → Traced ε β'} {g : α → α'} {k : β → β'} (hfirst : x'.outcome = x.outcome.map g)
    (hsecond : ∀ a, (f' (g a)).outcome = (f a).outcome.map k) :
    (x' >>= f').outcome = (x >>= f).outcome.map k := by
  rw [outcome_bind, outcome_bind, hfirst]
  cases x.outcome with
  | error fault => rfl
  | ok a => exact hsecond a

/-- Two sequences with one first part end alike, with other values, if their second parts do. -/
theorem outcome_bind_map_id {β' : Type} {x : Traced ε α} {f : α → Traced ε β}
    {f' : α → Traced ε β'} {k : β → β'}
    (hsecond : ∀ a, (f' a).outcome = (f a).outcome.map k) :
    (x >>= f').outcome = (x >>= f).outcome.map k := by
  rw [outcome_bind, outcome_bind]
  cases x.outcome with
  | error fault => rfl
  | ok a => exact hsecond a

/-- Outcomes of two sequences correspond if those of their first parts do, and those of their second
parts behind values that correspond. -/
theorem outcome_bind_rel {ε' α' β' : Type} {E : ε → ε' → Prop} {R : α → α' → Prop}
    {S : β → β' → Prop} {x : Traced ε α} {x' : Traced ε' α'} {f : α → Traced ε β}
    {f' : α' → Traced ε' β'} (hfirst : Except.Rel E R x.outcome x'.outcome)
    (hsecond : ∀ a a', R a a' → Except.Rel E S (f a).outcome (f' a').outcome) :
    Except.Rel E S (x >>= f).outcome (x' >>= f').outcome := by
  rw [outcome_bind, outcome_bind]
  exact hfirst.bind hsecond

/-! ## Events -/

theorem events_bind_of_ok {x : Traced ε α} {a : α} (h : x.outcome = .ok a) (f : α → Traced ε β) :
    (x >>= f).events = x.events ++ (f a).events := by
  rw [bind_of_ok h]

theorem events_bind_of_error {x : Traced ε α} {fault : ε} (h : x.outcome = .error fault)
    (f : α → Traced ε β) : (x >>= f).events = x.events := by
  rw [bind_of_error h]

/-- A computation that reports only events of a sort. -/
def Reports (sort : Log.Event → Prop) (x : Traced ε α) : Prop :=
  ∀ event ∈ x.events, sort event

namespace Reports

variable {sort : Log.Event → Prop}

theorem bind {x : Traced ε α} {f : α → Traced ε β} (hx : x.Reports sort)
    (hf : ∀ a, (f a).Reports sort) : (x >>= f).Reports sort := by
  intro event hevent
  cases houtcome : x.outcome with
  | ok a =>
    rw [events_bind_of_ok houtcome] at hevent
    exact (List.mem_append.mp hevent).elim (hx event) (hf a event)
  | error fault =>
    rw [events_bind_of_error houtcome] at hevent
    exact hx event hevent

theorem pure (a : α) : (Pure.pure a : Traced ε α).Reports sort :=
  fun _ hevent => by cases hevent

theorem lift (x : Except ε α) : (liftM x : Traced ε α).Reports sort :=
  fun _ hevent => by cases hevent

theorem report {event : Log.Event} (h : sort event) :
    (Traced.report event : Traced ε Unit).Reports sort :=
  fun _ hevent => List.mem_singleton.mp hevent ▸ h

end Reports

/-! ## Other errors -/

section MapError

variable {ε' : Type} (g : ε → ε')

@[simp] theorem mapError_lift (x : Except ε α) :
    (liftM x : Traced ε α).mapError g = liftM (x.mapError g) := rfl

theorem mapError_bind (x : Traced ε α) (f : α → Traced ε β) :
    (x >>= f).mapError g = x.mapError g >>= fun a => (f a).mapError g := by
  obtain ⟨events, outcome⟩ := x
  cases outcome <;> rfl

/-- Computations that are the same with their errors made others end in the same value, or in
errors that are made the same. -/
theorem outcomes_of_mapError_eq {x y : Traced ε α} (h : x.mapError g = y.mapError g) :
    (∃ a, x.outcome = .ok a ∧ y.outcome = .ok a) ∨
      ∃ fault other, x.outcome = .error fault ∧ y.outcome = .error other ∧ g fault = g other := by
  have houtcome : x.outcome.mapError g = y.outcome.mapError g := congrArg outcome h
  cases hx : x.outcome with
  | ok a =>
    cases hy : y.outcome with
    | ok b =>
      rw [hx, hy] at houtcome
      exact .inl ⟨a, rfl, congrArg Except.ok (Except.ok.inj houtcome).symm⟩
    | error other =>
      rw [hx, hy] at houtcome
      cases houtcome
  | error fault =>
    cases hy : y.outcome with
    | ok b =>
      rw [hx, hy] at houtcome
      cases houtcome
    | error other =>
      rw [hx, hy] at houtcome
      exact .inr ⟨fault, other, rfl, rfl, Except.error.inj houtcome⟩

end MapError

end TypeTable.Traced
