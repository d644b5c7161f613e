import TypeTable.Log.Traced

/-!
# Runs that print

A run reports events and prints texts, each in order, and ends in a value or in an error text.
Events reported and texts printed before an error are kept.
-/

namespace TypeTable.Cli

/-- What a run reports, what it prints, and what it ends in. -/
structure Run (α : Type) extends Traced String α where
  /-- The texts on standard output, in order. -/
  printed : List String

namespace Run

variable {α β : Type}

/-- A computation that prints nothing. -/
def ofTraced (x : Traced String α) : Run α :=
  ⟨x, []⟩

/-- A single line. -/
def printLine (line : String) : Run Unit :=
  ⟨pure (), [line ++ "\n"]⟩

/-- The second run is made on the value of the first. -/
protected def bind (x : Run α) (f : α → Run β) : Run β :=
  match x.outcome with
  | .ok a => ⟨⟨x.events ++ (f a).events, (f a).outcome⟩, x.printed ++ (f a).printed⟩
  | .error text => ⟨⟨x.events, .error text⟩, x.printed⟩

instance : Monad Run where
  pure a := ⟨pure a, []⟩
  bind := Run.bind

instance : MonadLift (Traced String) Run := ⟨ofTraced⟩

/-- All that a run prints. -/
def stdout (x : Run α) : String :=
  String.join x.printed

/-! ## What each operation leaves -/

@[simp] theorem printed_lift (x : Traced String α) : (liftM x : Run α).printed = [] := rfl

@[simp] theorem outcome_printLine (line : String) : (printLine line).outcome = .ok () := rfl

@[simp] theorem printed_printLine (line : String) :
    (printLine line).printed = [line ++ "\n"] := rfl

theorem bind_of_ok {x : Run α} {a : α} (h : x.outcome = .ok a) (f : α → Run β) :
    x >>= f = ⟨⟨x.events ++ (f a).events, (f a).outcome⟩, x.printed ++ (f a).printed⟩ := by
  obtain ⟨⟨events, outcome⟩, printed⟩ := x
  cases h
  rfl

theorem bind_of_error {x : Run α} {text : String} (h : x.outcome = .error text)
    (f : α → Run β) : x >>= f = ⟨⟨x.events, .error text⟩, x.printed⟩ := by
  obtain ⟨⟨events, outcome⟩, printed⟩ := x
  cases h
  rfl

end Run

end TypeTable.Cli
