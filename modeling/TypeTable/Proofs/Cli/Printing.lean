import TypeTable.Cli.Printing

/-!
# What runs print

A run that starts with a computation that prints nothing prints what it does behind that
(`Run.text_bind`), and a loop that prints lines prints them in order (`Run.forM_printLine`). A run
fails silently if it has printed nothing by the time it fails: `Run.FailsSilently.bind` says so of a
run whose first part prints nothing, and `Run.FailsSilently.of_ok` of one that does not fail.
-/

namespace TypeTable.Cli.Run

variable {α β : Type}

/-- What a run prints, or the error that it ends in. -/
def text (x : Run α) : Except String String :=
  x.outcome.map fun _ => x.stdout

theorem text_of_ok {x : Run α} {a : α} (h : x.outcome = .ok a) : x.text = .ok x.stdout := by
  rw [text, h]
  rfl

theorem text_eq_ok_iff {x : Run Unit} {printed : String} :
    x.text = .ok printed ↔ x.outcome = .ok () ∧ x.stdout = printed := by
  rw [text]
  cases x.outcome <;> simp [Except.map]

theorem text_eq_error_iff {x : Run α} {error : String} :
    x.text = .error error ↔ x.outcome = .error error := by
  rw [text]
  cases x.outcome <;> simp [Except.map]

/-- Behind a computation that prints nothing, a run prints what its second part does. -/
theorem text_bind (x : Traced String α) (f : α → Run β) :
    ((liftM x : Run α) >>= f).text = x.outcome.bind fun a => (f a).text := by
  obtain ⟨events, outcome⟩ := x
  cases outcome <;> rfl

/-- A loop that prints a line for each element of a list does not fail. -/
theorem forM_printLine (line : α → String) (elements : List α) :
    (elements.forM fun a => printLine (line a)) =
      ⟨pure (), elements.map fun a => line a ++ "\n"⟩ := by
  induction elements with
  | nil => rfl
  | cons first rest ih =>
    show (printLine (line first) >>= fun _ => rest.forM fun a => printLine (line a)) = _
    rw [ih]
    rfl

/-! ## Failures -/

/-- A run that prints nothing if it fails. -/
def FailsSilently (x : Run α) : Prop :=
  ∀ error, x.outcome = .error error → x.printed = []

namespace FailsSilently

theorem of_ok {x : Run α} {a : α} (h : x.outcome = .ok a) : x.FailsSilently := by
  intro error herror
  rw [h] at herror
  cases herror

/-- The first part of a run may fail if it prints nothing, and so may the second part if it fails
silently. -/
theorem bind {x : Run α} {f : α → Run β} (hx : x.printed = []) (hf : ∀ a, (f a).FailsSilently) :
    (x >>= f).FailsSilently := by
  intro error herror
  cases houtcome : x.outcome with
  | error other => rw [bind_of_error houtcome, hx]
  | ok a =>
    rw [bind_of_ok houtcome] at herror ⊢
    rw [hx, hf a error herror, List.append_nil]

theorem stdout_eq {x : Run α} {error : String} (h : x.FailsSilently)
    (herror : x.outcome = .error error) : x.stdout = "" := by
  rw [stdout, h error herror]
  rfl

end FailsSilently

end TypeTable.Cli.Run
