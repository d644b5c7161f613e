import TypeTable.Cli.Run
import TypeTable.Proofs.Cli.Printing
import TypeTable.Proofs.Log.Filter
import TypeTable.Proofs.Log.Outcome
import TypeTable.Proofs.Table.References

/-!
# Agreement of the commands

Every command first reads the table of its file. Behind that only the strict check can fail, and
what a run prints is made of the table that it has (`Cli.text_run_eq_ok_iff`), or it ends in an
error (`Cli.text_run_eq_error_iff`) before anything is printed (`Cli.failsSilently_run`). So the
commands accept the same files, apart from the strict check, and a failed run has printed nothing:
`Cli.outcome_correct`.
-/

namespace TypeTable

/-! ## The table of a file -/

section Loading

variable {content : Except ReadError ByteArray} {text : String} {table : Table}

/-- A file holds the table of its text, which is in UTF-8. -/
def FileHolds (content : Except ReadError ByteArray) (table : Table) : Prop :=
  ∃ bytes text, content = .ok bytes ∧ String.fromUTF8? bytes = some text ∧
    (Table.ofText text).outcome = .ok table

theorem textOfFile_eq_ok_iff :
    textOfFile content = .ok text ↔
      ∃ bytes, content = .ok bytes ∧ String.fromUTF8? bytes = some text := by
  cases content with
  | error error => exact ⟨fun h => (nomatch h), fun ⟨_, h, _⟩ => (nomatch h)⟩
  | ok bytes =>
    simp only [textOfFile, bind, Except.bind, Except.ok.injEq, exists_eq_left']
    cases String.fromUTF8? bytes <;> simp [pure, Except.pure]

theorem FileHolds.unique {other : Table} (h : FileHolds content table)
    (hother : FileHolds content other) : table = other := by
  obtain ⟨bytes, text, hbytes, htext, htable⟩ := h
  obtain ⟨bytes', text', hbytes', htext', htable'⟩ := hother
  cases hbytes.symm.trans hbytes'
  cases htext.symm.trans htext'
  exact Except.ok.inj (htable.symm.trans htable')

namespace Table

theorem outcome_ofFile (path : String) :
    (ofFile path content).outcome = (ofLoaded (loadFile content)).outcome := by
  rw [ofFile, Traced.outcome_bind, Traced.outcome_report]
  rfl

theorem outcome_ofFile_eq_ok_iff (path : String) :
    (ofFile path content).outcome = .ok table ↔ FileHolds content table := by
  rw [outcome_ofFile, loadFile]
  cases htext : textOfFile content with
  | error error =>
    constructor
    · intro h
      cases h
    · intro ⟨bytes, text, hbytes, hutf8, _⟩
      cases htext.symm.trans (textOfFile_eq_ok_iff.mpr ⟨bytes, hbytes, hutf8⟩)
  | ok text =>
    constructor
    · intro h
      obtain ⟨bytes, hbytes, hutf8⟩ := textOfFile_eq_ok_iff.mp htext
      exact ⟨bytes, text, hbytes, hutf8, h⟩
    · intro ⟨bytes, other, hbytes, hutf8, h⟩
      cases htext.symm.trans (textOfFile_eq_ok_iff.mpr ⟨bytes, hbytes, hutf8⟩)
      exact h

end Table

/-- A file of a text holds the table that the text gives. -/
theorem fileHolds_toUTF8 (h : (Table.ofText text).outcome = .ok table) :
    FileHolds (.ok text.toUTF8) table :=
  ⟨text.toUTF8, text, rfl, dif_pos text.isValidUTF8, h⟩

end Loading

namespace Cli

variable {content : Except ReadError ByteArray} {command : Command} {text : String} {table : Table}

theorem loadTable_eq_ok_iff (file : String) :
    (loadTable file content).outcome = .ok table ↔ FileHolds content table := by
  rw [← Table.outcome_ofFile_eq_ok_iff file, loadTable, Traced.mapError]
  cases (Table.ofFile file content).outcome <;> simp [Except.mapError]

/-! ## Runs -/

/-- Whether a command checks the references. -/
def Command.strict : Command → Bool
  | .check _ strict => strict
  | .dump _ _ => false

/-- The list of a table's definitions with their kinds, and their number. -/
def listing (table : Table) : String :=
  String.join (table.definitions.map fun d => d.name ++ ": " ++ word d.kind ++ "\n") ++
    toString table.size ++ " definitions OK\n"

/-- What a command prints of a table. -/
def Command.output (command : Command) (table : Table) : String :=
  match command with
  | .check _ _ => listing table
  | .dump _ compact => (if compact then table.toJson.compact else table.toJson.spread) ++ "\n"

/-- What a command makes of a table. -/
def Command.answer (command : Command) (table : Table) : Except String String :=
  if command.strict then
    (table.checkReferences.mapError Dangling.message).map fun _ => command.output table
  else .ok (command.output table)

theorem outcome_checkReferencesOf (file : String) :
    (checkReferencesOf file table).outcome = table.checkReferences.mapError Dangling.message := by
  rw [checkReferencesOf, Traced.outcome_bind, Traced.outcome_report]
  rfl

/-- Printing a listing does not fail. -/
theorem outcome_printListing (table : Table) : (printListing table).outcome = .ok () := by
  rw [printListing, Run.forM_printLine]
  rfl

theorem text_printListing (table : Table) : (printListing table).text = .ok (listing table) := by
  rw [Run.text_of_ok (outcome_printListing table), printListing, Run.forM_printLine]
  simp [Run.bind_of_ok, Run.stdout, listing, String.append_assoc]

/-- What a run prints is what its command makes of the table of the file. -/
theorem text_run :
    (run content command).text = (loadTable command.file content).outcome.bind command.answer := by
  cases command with
  | dump file compact =>
    rw [run, Run.text_bind]
    rfl
  | check file strict =>
    rw [run, Run.text_bind]
    congr 1
    funext table
    cases strict with
    | false => exact text_printListing table
    | true =>
      show ((liftM (checkReferencesOf file table) : Run Unit) >>=
          fun _ => printListing table).text =
        (table.checkReferences.mapError Dangling.message).map fun _ => listing table
      rw [Run.text_bind, outcome_checkReferencesOf, text_printListing]
      cases table.checkReferences <;> rfl

/-- A run prints only behind the last of its parts that can fail. -/
theorem failsSilently_run : (run content command).FailsSilently := by
  cases command with
  | dump file compact =>
    exact .bind (Run.printed_lift _) fun _ => .of_ok (Run.outcome_printLine _)
  | check file strict =>
    refine .bind (Run.printed_lift _) fun table => ?_
    cases strict with
    | false => exact .of_ok (outcome_printListing table)
    | true => exact .bind (Run.printed_lift _) fun _ => .of_ok (outcome_printListing table)

theorem answer_eq_ok_iff :
    command.answer table = .ok text ↔
      (command.strict = true → table.checkReferences = .ok ()) ∧ command.output table = text := by
  rw [Command.answer]
  cases command.strict with
  | false => simp
  | true => cases table.checkReferences <;> simp [Except.mapError, Except.map]

theorem answer_eq_error_iff :
    command.answer table = .error text ↔ command.strict = true ∧
      ∃ reported, table.checkReferences = .error reported ∧ reported.message = text := by
  rw [Command.answer]
  cases command.strict with
  | false => simp
  | true => cases table.checkReferences <;> simp [Except.mapError, Except.map]

/-- A run prints what its command makes of the table of the file. -/
theorem text_run_eq_ok_iff :
    (run content command).text = .ok text ↔ ∃ table, FileHolds content table ∧
      (command.strict = true → table.checkReferences = .ok ()) ∧ command.output table = text := by
  rw [text_run]
  simp only [← answer_eq_ok_iff, ← loadTable_eq_ok_iff command.file]
  cases (loadTable command.file content).outcome <;> simp [Except.bind]

/-- A run fails where the file has no table, or where a strict check finds a dangling reference. -/
theorem text_run_eq_error_iff :
    (run content command).text = .error text ↔
      (loadTable command.file content).outcome = .error text ∨
        ∃ table, FileHolds content table ∧ command.strict = true ∧
          ∃ reported, table.checkReferences = .error reported ∧ reported.message = text := by
  rw [text_run]
  simp only [← answer_eq_error_iff, ← loadTable_eq_ok_iff command.file]
  cases (loadTable command.file content).outcome <;> simp [Except.bind]

/-! ## What invocations leave behind -/

namespace Invocation

variable {invocation : Invocation} {filter : Option Log.Filter}

/-- The events of a run that are logged. -/
def logged (invocation : Invocation) (filter : Option Log.Filter)
    (content : Except ReadError ByteArray) : List Log.Event :=
  (run content invocation.command).events.filter
    (filter.getD (usualFilter invocation.verbose)).admits

theorem outcome_of_ok (h : (run content invocation.command).text = .ok text) :
    invocation.outcome filter content = ⟨0, text, none, invocation.logged filter content⟩ := by
  obtain ⟨houtcome, rfl⟩ := Run.text_eq_ok_iff.mp h
  rw [outcome, houtcome]
  rfl

theorem outcome_of_error (h : (run content invocation.command).text = .error text) :
    invocation.outcome filter content = ⟨1, "", some text, invocation.logged filter content⟩ := by
  have houtcome := Run.text_eq_error_iff.mp h
  rw [outcome, houtcome, ← failsSilently_run.stdout_eq houtcome]
  rfl

theorem log_outcome :
    (invocation.outcome filter content).log = invocation.logged filter content := by
  cases h : (run content invocation.command).text with
  | ok text => rw [outcome_of_ok h]
  | error text => rw [outcome_of_error h]

theorem exitCode_outcome_eq_zero_iff :
    (invocation.outcome filter content).exitCode = 0 ↔
      ∃ text, (run content invocation.command).text = .ok text := by
  cases h : (run content invocation.command).text with
  | ok text => simp [outcome_of_ok h]
  | error text => simp [outcome_of_error h]

theorem error_outcome_eq_some_iff :
    (invocation.outcome filter content).error = some text ↔
      (run content invocation.command).text = .error text := by
  cases h : (run content invocation.command).text with
  | ok text => simp [outcome_of_ok h]
  | error text => simp [outcome_of_error h]

/-- An invocation succeeds on the files that hold a table whose references the command accepts. -/
theorem succeeds_iff :
    (invocation.outcome filter content).exitCode = 0 ↔ ∃ table, FileHolds content table ∧
      (invocation.command.strict = true → table.checkReferences = .ok ()) := by
  simp only [exitCode_outcome_eq_zero_iff, text_run_eq_ok_iff]
  constructor
  · intro ⟨_, table, htable, hrefs, _⟩
    exact ⟨table, htable, hrefs⟩
  · intro ⟨table, htable, hrefs⟩
    exact ⟨_, table, htable, hrefs, rfl⟩

theorem succeeds_iff_of_not_strict (h : invocation.command.strict = false) :
    (invocation.outcome filter content).exitCode = 0 ↔ ∃ table, FileHolds content table := by
  simp [succeeds_iff, h]

/-- An invocation without a strict check fails with the error of the file. -/
theorem error_outcome_eq_some_iff_of_not_strict (h : invocation.command.strict = false) :
    (invocation.outcome filter content).error = some text ↔
      (loadTable invocation.command.file content).outcome = .error text := by
  simp [error_outcome_eq_some_iff, text_run_eq_error_iff, h]

/-- A strict check accepts what the check does, if the references stand for types. -/
theorem strict_succeeds_iff {file : String} {verbose verbose' : Bool}
    {filter filter' : Option Log.Filter} :
    ((mk verbose (.check file true)).outcome filter content).exitCode = 0 ↔
      ((mk verbose' (.check file false)).outcome filter' content).exitCode = 0 ∧
        ∀ table, FileHolds content table → ∀ d ∈ table.definitions, table.Resolves d := by
  rw [succeeds_iff, succeeds_iff_of_not_strict rfl]
  constructor
  · intro ⟨table, htable, hrefs⟩
    refine ⟨⟨table, htable⟩, fun other hother => ?_⟩
    cases htable.unique hother
    exact Table.checkReferences_eq_ok_iff.mp (hrefs rfl)
  · intro ⟨⟨table, htable⟩, hresolves⟩
    exact ⟨table, htable, fun _ => Table.checkReferences_eq_ok_iff.mpr (hresolves table htable)⟩

theorem strict_prints {file : String} {verbose verbose' : Bool}
    {filter filter' : Option Log.Filter}
    (h : ((mk verbose (.check file true)).outcome filter content).exitCode = 0) :
    ((mk verbose (.check file true)).outcome filter content).stdout =
      ((mk verbose' (.check file false)).outcome filter' content).stdout := by
  obtain ⟨text, hstrict⟩ := exitCode_outcome_eq_zero_iff.mp h
  obtain ⟨table, htable, _, rfl⟩ := text_run_eq_ok_iff.mp hstrict
  have hplain : (run content (.check file false)).text = .ok (listing table) :=
    text_run_eq_ok_iff.mpr ⟨table, htable, nofun, rfl⟩
  rw [outcome_of_ok hstrict, outcome_of_ok hplain]
  rfl

/-- An invocation ends in a text or in an error, not in both. -/
theorem outcome_succeeds_or_fails :
    ((invocation.outcome filter content).exitCode = 0 ∧
      (invocation.outcome filter content).error = none) ∨
    (invocation.outcome filter content).exitCode = 1 ∧
      (invocation.outcome filter content).stdout = "" ∧
      ∃ text, (invocation.outcome filter content).error = some text := by
  cases h : (run content invocation.command).text with
  | ok text =>
    rw [outcome_of_ok h]
    exact .inl ⟨rfl, rfl⟩
  | error text =>
    rw [outcome_of_error h]
    exact .inr ⟨rfl, rfl, text, rfl⟩

/-- What is logged is the only difference that the verbosity and the filter make. -/
theorem outcome_of_command_eq {other : Invocation} (filter' : Option Log.Filter)
    (h : invocation.command = other.command) :
    invocation.outcome filter content =
      { other.outcome filter' content with log := invocation.logged filter content } := by
  cases hother : (run content other.command).text with
  | ok text => rw [outcome_of_ok (h ▸ hother), outcome_of_ok hother]
  | error text => rw [outcome_of_error (h ▸ hother), outcome_of_error hother]

end Invocation

/-- Without a strict check, the same files are accepted by all commands, which fail with the same
error. A strict check accepts those of them whose references all stand for a type, and prints what
the check does. Nothing is printed by an invocation that fails, and nothing but the log depends on
what is logged: the events of the run that the filter admits, by the directive that decides. -/
theorem outcome_correct (content : Except ReadError ByteArray) :
    (∀ (invocation : Invocation) filter, invocation.command.strict = false →
      ((invocation.outcome filter content).exitCode = 0 ↔ ∃ table, FileHolds content table)) ∧
    (∀ (invocation other : Invocation) filter filter',
      invocation.command.strict = false → other.command.strict = false →
      invocation.command.file = other.command.file →
      (invocation.outcome filter content).error = (other.outcome filter' content).error) ∧
    (∀ file verbose verbose' filter filter',
      let strict := (Invocation.mk verbose (.check file true)).outcome filter content
      let plain := (Invocation.mk verbose' (.check file false)).outcome filter' content
      (strict.exitCode = 0 ↔ plain.exitCode = 0 ∧ ∀ table, FileHolds content table →
        ∀ d ∈ table.definitions, ∀ type, d.shape.Holds type →
          ∃ target, table.resolve? type = some target) ∧
      (strict.exitCode = 0 → strict.stdout = plain.stdout)) ∧
    (∀ (invocation : Invocation) filter,
      let left := invocation.outcome filter content
      left.exitCode = 0 ∧ left.error = none ∨
        left.exitCode = 1 ∧ left.stdout = "" ∧ ∃ text, left.error = some text) ∧
    (∀ (invocation other : Invocation) filter filter', invocation.command = other.command →
      let left := invocation.outcome filter content
      let left' := other.outcome filter' content
      left.exitCode = left'.exitCode ∧ left.stdout = left'.stdout ∧ left.error = left'.error) ∧
    ∀ (invocation : Invocation) filter,
      let stated : Log.Filter := filter.getD (usualFilter invocation.verbose)
      (invocation.outcome filter content).log =
        (run content invocation.command).events.filter stated.admits ∧
      ∀ event, stated.admits event = true ↔ ∃ directive level, stated.Decides event directive ∧
        directive.level = some level ∧ event.level.rank ≤ level.rank := by
  refine ⟨fun _ _ h => Invocation.succeeds_iff_of_not_strict h, ?_, ?_,
    fun _ _ => Invocation.outcome_succeeds_or_fails, ?_,
    fun _ _ => ⟨Invocation.log_outcome, fun _ => Log.Filter.admits_iff⟩⟩
  · intro invocation other filter filter' hplain hplain' hfile
    refine Option.ext fun text => ?_
    rw [Invocation.error_outcome_eq_some_iff_of_not_strict hplain,
      Invocation.error_outcome_eq_some_iff_of_not_strict hplain', hfile]
  · intro file verbose verbose' filter filter'
    exact ⟨Invocation.strict_succeeds_iff, Invocation.strict_prints⟩
  · intro invocation other filter filter' hcommand
    simp only [Invocation.outcome_of_command_eq filter' hcommand, and_self]

end Cli

end TypeTable
