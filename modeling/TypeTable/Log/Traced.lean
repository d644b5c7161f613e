import TypeTable.Log.Event

/-!
# Traced results

A computation that reports events and ends in a value or an error. Events reported before an error
are kept. `Traced.bind_of_ok` and `Traced.bind_of_error` say what a sequence of two computations
gives.
-/

namespace TypeTable

/-- The events that a computation reports, in order, and what it ends in. -/
structure Traced (ε α : Type) where
  events : List Log.Event
  outcome : Except ε α

namespace Traced

variable {ε α β : Type}

@[ext] protected theorem ext {x y : Traced ε α} (hevents : x.events = y.events)
    (houtcome : x.outcome = y.outcome) : x = y := by
  cases x; cases y; simp_all

/-- A result without events. -/
def ofExcept (outcome : Except ε α) : Traced ε α :=
  ⟨[], outcome⟩

/-- A single event. -/
def report (event : Log.Event) : Traced ε Unit :=
  ⟨[event], .ok ()⟩

/-- The second computation runs on the value of the first. -/
protected def bind (x : Traced ε α) (f : α → Traced ε β) : Traced ε β :=
  match x.outcome with
  | .ok a => ⟨x.events ++ (f a).events, (f a).outcome⟩
  | .error fault => ⟨x.events, .error fault⟩

/-- The same computation with its error made another. -/
def mapError {ε' : Type} (f : ε → ε') (x : Traced ε α) : Traced ε' α :=
  ⟨x.events, x.outcome.mapError f⟩

instance : Monad (Traced ε) where
  pure a := ⟨[], .ok a⟩
  bind := Traced.bind

instance : MonadLift (Except ε) (Traced ε) := ⟨ofExcept⟩

/-! ## Events and outcome of each operation -/

@[simp] theorem outcome_pure (a : α) : (pure a : Traced ε α).outcome = .ok a := rfl

@[simp] theorem events_pure (a : α) : (pure a : Traced ε α).events = [] := rfl

@[simp] theorem outcome_lift (x : Except ε α) : (liftM x : Traced ε α).outcome = x := rfl

@[simp] theorem events_lift (x : Except ε α) : (liftM x : Traced ε α).events = [] := rfl

@[simp] theorem outcome_report (event : Log.Event) :
    (report event : Traced ε Unit).outcome = .ok () := rfl

@[simp] theorem events_report (event : Log.Event) :
    (report event : Traced ε Unit).events = [event] := rfl

@[simp] theorem outcome_bind (x : Traced ε α) (f : α → Traced ε β) :
    (x >>= f).outcome = x.outcome.bind fun a => (f a).outcome := by
  obtain ⟨events, outcome⟩ := x
  cases outcome <;> rfl

theorem bind_of_ok {x : Traced ε α} {a : α} (h : x.outcome = .ok a) (f : α → Traced ε β) :
    x >>= f = ⟨x.events ++ (f a).events, (f a).outcome⟩ := by
  obtain ⟨events, outcome⟩ := x
  cases h
  rfl

theorem bind_of_error {x : Traced ε α} {fault : ε} (h : x.outcome = .error fault)
    (f : α → Traced ε β) : x >>= f = ⟨x.events, .error fault⟩ := by
  obtain ⟨events, outcome⟩ := x
  cases h
  rfl

theorem bind_assoc {γ : Type} (x : Traced ε α) (f : α → Traced ε β) (g : β → Traced ε γ) :
    x >>= f >>= g = x >>= fun a => f a >>= g := by
  obtain ⟨events, outcome⟩ := x
  cases outcome with
  | error fault => rfl
  | ok a =>
    show (⟨events ++ (f a).events, (f a).outcome⟩ : Traced ε β) >>= g =
      ⟨events ++ (f a >>= g).events, (f a >>= g).outcome⟩
    obtain ⟨later, outcome⟩ := f a
    cases outcome with
    | error fault => rfl
    | ok b => exact Traced.ext (List.append_assoc ..) rfl

theorem map_id_eq (x : Traced ε α) : id <$> x = x := by
  obtain ⟨events, outcome⟩ := x
  cases outcome with
  | error fault => rfl
  | ok a => exact Traced.ext (List.append_nil events) rfl

instance : LawfulMonad (Traced ε) :=
  LawfulMonad.mk' (Traced ε) map_id_eq (fun _ _ => rfl) bind_assoc

end Traced

end TypeTable
