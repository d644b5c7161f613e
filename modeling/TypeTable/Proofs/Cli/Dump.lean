import TypeTable.Proofs.Cli.Agreement
import TypeTable.Proofs.Json.Spread

/-!
# The two forms of a dump

A dump prints the JSON of a table in compact or in spread form, and a line feed. The forms differ
only in blanks outside texts: `Cli.dump_withoutBlanks`.
-/

namespace TypeTable.Cli

theorem withoutBlanks_output_dump (file : String) (table : Table) :
    Json.withoutBlanks ((Command.dump file false).output table) = table.toJson.compact := by
  have hbreak : Json.Reduces .outside .outside ['\n'] [] := ⟨rfl, rfl⟩
  have hline := (Json.reduces_spreadChars table.toJson 0).append hbreak
  have houtput : ((Command.dump file false).output table).toList =
      table.toJson.spreadChars 0 ++ ['\n'] := by
    simp [Command.output, Json.spread]
  rw [Json.withoutBlanks, houtput, hline.remains, List.append_nil, Json.compact]

/-- Without the spaces and line feeds that are not in quotes, the spread form of a table is its
compact form. So what a compact dump of a file prints is what the other dump prints without these,
and a line feed; where one of them fails, the other fails with the same text. -/
theorem dump_withoutBlanks :
    (∀ table : Table, Json.withoutBlanks table.toJson.spread = table.toJson.compact) ∧
      ∀ content file, (run content (.dump file true)).text =
        (run content (.dump file false)).text.map
          fun text => Json.withoutBlanks text ++ "\n" := by
  refine ⟨fun table => Json.withoutBlanks_spread table.toJson, fun content file => ?_⟩
  rw [text_run, text_run]
  show (loadTable file content).outcome.bind _ = ((loadTable file content).outcome.bind _).map _
  cases (loadTable file content).outcome with
  | error text => rfl
  | ok table =>
    have hanswer : (Command.dump file true).output table =
        Json.withoutBlanks ((Command.dump file false).output table) ++ "\n" := by
      rw [withoutBlanks_output_dump]
      rfl
    exact congrArg Except.ok hanswer

end TypeTable.Cli
