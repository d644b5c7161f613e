import Mathlib.Data.List.Basic
import TypeTable.Proofs.Cli.Agreement

/-!
# The listing of a check

A check prints a line for each definition and one for their number (`Cli.listed`). It does not
escape what a name holds, so the text consists of these lines only if no name has a line break of
its own, and one such table cannot be taken for another: `Cli.check_prints_listed`. With line breaks
in their names, tables of different definitions have been printed alike: `Cli.check_prints_alike`.
-/

namespace TypeTable

namespace Table

/-- The names of the definitions of a table, with their kinds. -/
def kinds (table : Table) : List (String × Kind) :=
  table.definitions.map fun d => (d.name, d.kind)

theorem length_kinds (table : Table) : table.kinds.length = table.size :=
  List.length_map _

/-- No definition has a line break in its name. -/
def OneLineNames (table : Table) : Prop :=
  ∀ entry ∈ table.kinds, '\n' ∉ entry.1.toList

end Table

namespace Cli

/-! ## Texts of lines -/

/-- A text of lines, with a line break behind each. -/
def textOf (lines : List String) : String :=
  String.join (lines.map (· ++ "\n"))

/-- A text consists of lines that have no line break of their own. -/
structure ConsistsOf (text : String) (lines : List String) : Prop where
  text_eq : text = textOf lines
  oneLine : ∀ line ∈ lines, '\n' ∉ line.toList

/-- The parts of a line between its line breaks; itself if it has none. -/
def parts (line : String) : List (List Char) :=
  line.toList.splitOn '\n'

theorem parts_of_not_mem {line : String} (h : '\n' ∉ line.toList) : parts line = [line.toList] :=
  List.splitOn_eq_singleton h

theorem eq_of_parts_eq {line : String} {part : List Char} (h : parts line = [part]) :
    line.toList = part := by
  have hjoined : ['\n'].intercalate (parts line) = line.toList := List.intercalate_splitOn '\n'
  rwa [h, List.intercalate_singleton, eq_comm] at hjoined

theorem parts_textOf (lines : List String) :
    parts (textOf lines) = lines.flatMap parts ++ [[]] := by
  induction lines with
  | nil => rfl
  | cons line rest ih =>
    have htext : (textOf (line :: rest)).toList = line.toList ++ '\n' :: (textOf rest).toList := by
      simp [textOf]
    rw [parts, htext, List.splitOn_append_cons_self, List.flatMap_cons, List.append_assoc, ← ih]
    rfl

theorem flatMap_parts {lines : List String} (h : ∀ line ∈ lines, '\n' ∉ line.toList) :
    lines.flatMap parts = lines.map String.toList := by
  rw [List.map_eq_flatMap]
  exact List.flatMap_congr fun line hline => parts_of_not_mem (h line hline)

theorem length_parts_pos (line : String) : 0 < (parts line).length :=
  List.length_pos_of_ne_nil (List.splitOn_ne_nil '\n' line.toList)

theorem length_le_length_flatMap_parts (lines : List String) :
    lines.length ≤ (lines.flatMap parts).length := by
  induction lines with
  | nil => exact Nat.le_refl 0
  | cons line rest ih =>
    have hpos := length_parts_pos line
    rw [List.flatMap_cons, List.length_append, List.length_cons]
    omega

/-- With no more parts than there are lines, each line is one part. -/
theorem flatMap_parts_of_length_eq {lines : List String}
    (h : (lines.flatMap parts).length = lines.length) :
    lines.flatMap parts = lines.map String.toList := by
  induction lines with
  | nil => rfl
  | cons line rest ih =>
    have hrest := length_le_length_flatMap_parts rest
    have hpos := length_parts_pos line
    rw [List.flatMap_cons, List.length_append, List.length_cons] at h
    obtain ⟨part, hpart⟩ := List.length_eq_one_iff.mp (by omega : (parts line).length = 1)
    rw [List.flatMap_cons, ih (by omega), hpart, List.map_cons, eq_of_parts_eq hpart]
    rfl

/-- Lines without line breaks are the only ones of their number that their text is made of. -/
theorem eq_of_textOf_eq {lines lines' : List String} (h : ∀ line ∈ lines, '\n' ∉ line.toList)
    (hlength : lines.length = lines'.length) (htext : textOf lines = textOf lines') :
    lines = lines' := by
  have hparts : lines.flatMap parts = lines'.flatMap parts := by
    have := congrArg parts htext
    rwa [parts_textOf, parts_textOf, List.append_left_inj] at this
  have hmap : lines.map String.toList = lines'.map String.toList := by
    rw [flatMap_parts h] at hparts
    rw [hparts]
    refine flatMap_parts_of_length_eq ?_
    rw [← hparts, List.length_map, hlength]
  exact List.map_injective_iff.mpr (fun _ _ => String.toList_injective) hmap

/-! ## The lines of a listing -/

variable {table table' : Table}

/-- The line of a name and its kind. -/
def entryLine (entry : String × Kind) : String :=
  entry.1 ++ ": " ++ word entry.2

/-- The line of a number of definitions. -/
def countLine (count : Nat) : String :=
  toString count ++ " definitions OK"

/-- The lines of the listing of a table. -/
def listed (table : Table) : List String :=
  table.kinds.map entryLine ++ [countLine table.size]

theorem listing_eq_textOf : listing table = textOf (listed table) := by
  simp [listing, textOf, listed, Table.kinds, entryLine, countLine, String.append_assoc,
    Function.comp_def]

theorem listing_of_kinds {kinds : List (String × Kind)} (h : table.kinds = kinds) :
    listing table = textOf (kinds.map entryLine ++ [countLine kinds.length]) := by
  rw [listing_eq_textOf, listed, ← Table.length_kinds, h]

theorem length_listed : (listed table).length = table.size + 1 := by
  simp [listed, table.length_kinds]

theorem word_plain (kind : Kind) :
    '\n' ∉ (word kind).toList ∧ ':' ∉ (word kind).toList := by
  cases kind <;> decide

theorem break_mem_entryLine_iff {entry : String × Kind} :
    '\n' ∈ (entryLine entry).toList ↔ '\n' ∈ entry.1.toList := by
  simp [entryLine, word_plain]

/-- No kind is spelled with a colon, so the last colon of a line stands behind the name. -/
theorem entryLine_injective {entry entry' : String × Kind}
    (h : entryLine entry = entryLine entry') : entry = entry' := by
  obtain ⟨name, kind⟩ := entry
  obtain ⟨name', kind'⟩ := entry'
  have hsplit : ∀ (name : String) (kind : Kind),
      (entryLine (name, kind)).toList.splitOn ':' =
        name.toList.splitOn ':' ++ [' ' :: (word kind).toList] := by
    intro name kind
    have hline : (entryLine (name, kind)).toList =
        name.toList ++ ':' :: ' ' :: (word kind).toList := by
      simp [entryLine]
    have hword : ':' ∉ ' ' :: (word kind).toList := by
      simpa using (word_plain kind).2
    rw [hline, List.splitOn_append_cons_self, List.splitOn_eq_singleton hword]
  have hparts := congrArg (fun line : String => line.toList.splitOn ':') h
  simp only [hsplit] at hparts
  obtain ⟨hname, hkind⟩ := List.append_inj' hparts rfl
  have hname : name.toList = name'.toList := by
    have := congrArg (List.intercalate [':']) hname
    rwa [List.intercalate_splitOn, List.intercalate_splitOn] at this
  simp only [List.cons.injEq, and_true, true_and] at hkind
  rw [String.toList_injective hname, Spelled.word_injective (String.toList_injective hkind)]

theorem break_not_mem_countLine (count : Nat) : '\n' ∉ (countLine count).toList := by
  have hdigits : '\n' ∉ Nat.toDigits 10 count := fun h =>
    absurd (Nat.isDigit_of_mem_toDigits (by decide) (by decide) h) (by decide)
  simpa [countLine, Nat.toString_eq_repr, Nat.toList_repr] using hdigits

theorem countLine_injective {count count' : Nat} (h : countLine count = countLine count') :
    count = count' := by
  have hdigits : Nat.toDigits 10 count = Nat.toDigits 10 count' := by
    simpa [countLine, Nat.toString_eq_repr, Nat.toList_repr, ← String.toList_inj] using h
  rw [← Nat.ofDigitChars_ten_toDigits (n := count), hdigits, Nat.ofDigitChars_ten_toDigits]

theorem oneLine_listed_iff :
    (∀ line ∈ listed table, '\n' ∉ line.toList) ↔ table.OneLineNames := by
  rw [listed, List.forall_mem_append, List.forall_mem_singleton, List.forall_mem_map]
  simp only [break_mem_entryLine_iff, break_not_mem_countLine, not_false_eq_true, and_true,
    Table.OneLineNames]

/-- A listing consists of its lines if no name has a line break, and only then. -/
theorem consistsOf_listing_iff :
    ConsistsOf (listing table) (listed table) ↔ table.OneLineNames := by
  rw [← oneLine_listed_iff]
  exact ⟨fun h => h.oneLine, fun h => ⟨listing_eq_textOf, h⟩⟩

/-- The last line of a listing tells the number of definitions, whatever their names are. -/
theorem size_eq_of_listing_eq (h : listing table = listing table') : table.size = table'.size := by
  have hparts : ∀ table, parts (listing table) =
      (table.kinds.map entryLine).flatMap parts ++ [(countLine table.size).toList, []] := by
    intro table
    rw [listing_eq_textOf, parts_textOf, listed, List.flatMap_append, List.flatMap_singleton,
      parts_of_not_mem (break_not_mem_countLine _), List.append_assoc]
    rfl
  have heq := congrArg parts h
  rw [hparts, hparts] at heq
  obtain ⟨-, htail⟩ := List.append_inj' heq rfl
  exact countLine_injective (String.toList_injective (List.cons.inj htail).1)

/-- A table without line breaks in its names is not printed like one of other names or kinds. -/
theorem kinds_eq_of_listing_eq (hnames : table.OneLineNames)
    (h : listing table = listing table') : table.kinds = table'.kinds := by
  have hlines : listed table = listed table' := by
    refine eq_of_textOf_eq (oneLine_listed_iff.mpr hnames) ?_ ?_
    · rw [length_listed, length_listed, size_eq_of_listing_eq h]
    · rw [← listing_eq_textOf, ← listing_eq_textOf, h]
  obtain ⟨hentries, -⟩ := List.append_inj' hlines rfl
  exact List.map_injective_iff.mpr (fun _ _ => entryLine_injective) hentries

/-! ## Checks of files -/

section Check

variable {content content' : Except ReadError ByteArray}

theorem stdout_check (h : FileHolds content table) (file : String) (verbose : Bool)
    (filter : Option Log.Filter) :
    ((Invocation.mk verbose (.check file false)).outcome filter content).stdout =
      listing table := by
  have hrun : (run content (.check file false)).text = .ok (listing table) :=
    text_run_eq_ok_iff.mpr ⟨table, h, nofun, rfl⟩
  rw [Invocation.outcome_of_ok hrun]

/-- A check prints the lines of a table if no name has a line break, and only then. No file that
holds another sequence of names and kinds is printed like one without line breaks in its names. -/
theorem check_prints_listed (h : FileHolds content table) (h' : FileHolds content' table')
    (file file' : String) (verbose verbose' : Bool) (filter filter' : Option Log.Filter) :
    let left := (Invocation.mk verbose (.check file false)).outcome filter content
    let left' := (Invocation.mk verbose' (.check file' false)).outcome filter' content'
    (ConsistsOf left.stdout (table.kinds.map entryLine ++ [countLine table.size]) ↔
      table.OneLineNames) ∧
    (table.OneLineNames → table.kinds ≠ table'.kinds → left.stdout ≠ left'.stdout) := by
  intro left left'
  have hleft : left.stdout = listing table := stdout_check h file verbose filter
  have hleft' : left'.stdout = listing table' := stdout_check h' file' verbose' filter'
  rw [hleft, hleft']
  exact ⟨consistsOf_listing_iff, fun hnames => mt (kinds_eq_of_listing_eq hnames)⟩

end Check

/-- A file of a text holds a table of the names and kinds that the text gives. -/
theorem exists_fileHolds_of_kinds {text : String} {kinds : List (String × Kind)}
    (h : (Table.ofText text).outcome.toOption.map Table.kinds = some kinds) :
    ∃ table, FileHolds (.ok text.toUTF8) table ∧ table.kinds = kinds := by
  obtain ⟨table, htable, hkinds⟩ := Option.map_eq_some_iff.mp h
  cases houtcome : (Table.ofText text).outcome with
  | error failure =>
    rw [houtcome] at htable
    cases htable
  | ok other =>
    rw [houtcome] at htable
    cases htable
    exact ⟨table, fileHolds_toUTF8 houtcome, hkinds⟩

/-- A file with the name `A`. -/
def noBreak : String :=
  "\"definitions\":\n  \"A\":\n    \"type\": \"bool\"\n"

/-- A file whose first name looks like a line and a name. -/
def earlyBreak : String :=
  "\"definitions\":\n  \"A: bool\\nB\":\n    \"type\": \"bool\"\n" ++
    "  \"C\":\n    \"type\": \"bool\"\n"

/-- A file whose second name looks like a line and a name. -/
def lateBreak : String :=
  "\"definitions\":\n  \"A\":\n    \"type\": \"bool\"\n" ++
    "  \"B: bool\\nC\":\n    \"type\": \"bool\"\n"

theorem exists_fileHolds_noBreak :
    ∃ table, FileHolds (.ok noBreak.toUTF8) table ∧ table.kinds = [("A", .bool)] :=
  exists_fileHolds_of_kinds (by decide +kernel)

theorem exists_fileHolds_earlyBreak :
    ∃ table, FileHolds (.ok earlyBreak.toUTF8) table ∧
      table.kinds = [("A: bool\nB", .bool), ("C", .bool)] :=
  exists_fileHolds_of_kinds (by decide +kernel)

theorem exists_fileHolds_lateBreak :
    ∃ table, FileHolds (.ok lateBreak.toUTF8) table ∧
      table.kinds = [("A", .bool), ("B: bool\nC", .bool)] :=
  exists_fileHolds_of_kinds (by decide +kernel)

/-- The check of a single name prints its line, and nothing else is printed like that. -/
theorem check_prints_listed_noBreak :
    ∃ table table', FileHolds (.ok noBreak.toUTF8) table ∧
      FileHolds (.ok earlyBreak.toUTF8) table' ∧ table.OneLineNames ∧
      let left := (Invocation.mk false (.check "a.yaml" false)).outcome none (.ok noBreak.toUTF8)
      let left' :=
        (Invocation.mk true (.check "b.yaml" false)).outcome none (.ok earlyBreak.toUTF8)
      ConsistsOf left.stdout ["A: bool", "1 definitions OK"] ∧ left.stdout ≠ left'.stdout := by
  obtain ⟨table, htable, hkinds⟩ := exists_fileHolds_noBreak
  obtain ⟨table', htable', hkinds'⟩ := exists_fileHolds_earlyBreak
  have hnames : table.OneLineNames := by
    rw [Table.OneLineNames, hkinds]
    decide
  have hlines : table.kinds.map entryLine ++ [countLine table.size] =
      ["A: bool", "1 definitions OK"] := by
    rw [← Table.length_kinds, hkinds]
    decide
  obtain ⟨hprinted, hother⟩ := check_prints_listed htable htable' "a.yaml" "b.yaml" false true
    none none
  refine ⟨table, table', htable, htable', hnames, hlines ▸ hprinted.mpr hnames, hother hnames ?_⟩
  rw [hkinds, hkinds']
  decide

/-- Two files of different names that a check accepts and prints alike. What it prints has more
lines than there are definitions and the line of their number. -/
theorem check_prints_alike :
    ∃ table table', FileHolds (.ok earlyBreak.toUTF8) table ∧
      FileHolds (.ok lateBreak.toUTF8) table' ∧ table.kinds ≠ table'.kinds ∧ table.size = 2 ∧
      let left := (Invocation.mk false (.check "a.yaml" false)).outcome none (.ok earlyBreak.toUTF8)
      let left' := (Invocation.mk false (.check "a.yaml" false)).outcome none (.ok lateBreak.toUTF8)
      left.exitCode = 0 ∧ left'.exitCode = 0 ∧ left.stdout = left'.stdout ∧
      ConsistsOf left.stdout ["A: bool", "B: bool", "C: bool", "2 definitions OK"] ∧
      ¬ ConsistsOf left.stdout (table.kinds.map entryLine ++ [countLine table.size]) := by
  obtain ⟨table, htable, hkinds⟩ := exists_fileHolds_earlyBreak
  obtain ⟨table', htable', hkinds'⟩ := exists_fileHolds_lateBreak
  have hsize : table.size = 2 := by
    rw [← Table.length_kinds, hkinds]
    rfl
  have hlisting : listing table =
      textOf ["A: bool", "B: bool", "C: bool", "2 definitions OK"] := by
    rw [listing_of_kinds hkinds]
    decide
  have hlisting' : listing table' = listing table := by
    rw [hlisting, listing_of_kinds hkinds']
    decide
  refine ⟨table, table', htable, htable', ?_, hsize, ?_, ?_, ?_, ?_, ?_⟩
  · rw [hkinds, hkinds']
    decide
  · exact (Invocation.succeeds_iff_of_not_strict rfl).mpr ⟨table, htable⟩
  · exact (Invocation.succeeds_iff_of_not_strict rfl).mpr ⟨table', htable'⟩
  · rw [stdout_check htable, stdout_check htable', hlisting']
  · rw [stdout_check htable]
    exact ⟨hlisting, by decide⟩
  · rw [stdout_check htable]
    refine mt consistsOf_listing_iff.mp ?_
    rw [Table.OneLineNames, hkinds]
    decide

end Cli

end TypeTable
