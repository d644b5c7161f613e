import TypeTable.Yaml.Cursor
import TypeTable.Yaml.Error

/-!
# Block scalars

The lines of a block scalar are indented by as much as its header says or its first line shows. In
a folded one the break between two lines that start with no blank stands for a blank, or for
nothing if empty lines follow. The header also says which breaks at the end are kept.
-/

namespace TypeTable.Yaml

/-- Which line breaks at the end of a block scalar are kept. -/
inductive Chomping where
  | none
  | first
  | all
  deriving DecidableEq, Repr

/-- The header of a block scalar: what is kept at its end, and how much deeper than its parent it
is indented, if stated. -/
structure BlockHeader where
  keep : Chomping
  deeper : Option Nat

/-- The chomping that an indicator states. -/
def chomping? : Char → Option Chomping
  | '-' => some .none
  | '+' => some .all
  | _ => Option.none

/-- A header, its two parts in either order, and how many characters it takes. -/
def blockHeader : List Char → Except Error (BlockHeader × Nat)
  | a :: b :: _ =>
    if a == '0' || (chomping? a).isSome && b == '0' then .error .headerMalformed
    else
      match chomping? a, chomping? b with
      | some keep, _ =>
        if b.isDigit then .ok (⟨keep, some (b.toNat - '0'.toNat)⟩, 2) else .ok (⟨keep, none⟩, 1)
      | none, some keep =>
        if a.isDigit then .ok (⟨keep, some (a.toNat - '0'.toNat)⟩, 2) else .ok (⟨.first, none⟩, 0)
      | none, none =>
        if a.isDigit then .ok (⟨.first, some (a.toNat - '0'.toNat)⟩, 1)
        else .ok (⟨.first, none⟩, 0)
  | [a] =>
    if a == '0' then .error .headerMalformed
    else if a.isDigit then .ok (⟨.first, some (a.toNat - '0'.toNat)⟩, 1)
    else
      match chomping? a with
      | some keep => .ok (⟨keep, none⟩, 1)
      | none => .ok (⟨.first, none⟩, 0)
  | [] => .ok (⟨.first, none⟩, 0)

/-- The lines of a block scalar read so far. -/
structure BlockLines where
  text : String := ""
  /-- The break that ends the last line of text. -/
  lineEnd : List Char := []
  /-- The breaks of the empty lines behind it, the last first. -/
  breaks : List Char := []
  /-- Whether the last line of text starts with a blank. -/
  blankStart : Bool := false

namespace BlockLines

/-- The lines before one more line of text, which starts with a blank or not. -/
def startLine (folded blank : Bool) (lines : BlockLines) : BlockLines :=
  let joint :=
    if folded && lines.lineEnd == ['\n'] && !lines.blankStart && !blank then
      if lines.breaks.isEmpty then [' '] else []
    else lines.lineEnd
  { text := lines.text ++ String.ofList (joint ++ lines.breaks.reverse), blankStart := blank }

/-- The text of all lines. -/
def finish (keep : Chomping) (lines : BlockLines) : String :=
  match keep with
  | .none => lines.text
  | .first => lines.text ++ String.ofList lines.lineEnd
  | .all => lines.text ++ String.ofList (lines.lineEnd ++ lines.breaks.reverse)

end BlockLines

/-- How a block scalar is read. -/
structure BlockStyle where
  folded : Bool
  keep : Chomping
  /-- The least indentation that can be found. -/
  least : Nat

/-- The block scalar that goes on at a position, and the cursor behind it. The indentation is
unknown before the first line of text; `deepest` is the deepest blank line up to there. -/
def blockFrom (style : BlockStyle) (indent? : Option Nat) (deepest : Nat) (inText : Bool)
    (lines : BlockLines) (pos : Position) : List Char → Except Error (String × Cursor)
  | [] => .ok (lines.finish style.keep, ⟨pos, []⟩)
  | c :: rest =>
    if inText then
      if isBreak c then
        blockFrom style indent? deepest false { lines with lineEnd := [c] } (pos.after c) rest
      else
        blockFrom style indent? deepest true { lines with text := lines.text.push c } (pos.after c)
          rest
    else
      let indenting := match indent? with
        | some indent => decide (pos.column < indent)
        | none => true
      let reached := max deepest pos.column
      if indenting && c == ' ' then
        blockFrom style indent? deepest false lines (pos.after c) rest
      else if indenting && c == '\t' then .error .tabIndents
      else if isBreak c then
        blockFrom style indent? reached false { lines with breaks := c :: lines.breaks }
          (pos.after c) rest
      else
        let indent := indent?.getD (max reached style.least)
        if pos.column == indent then
          let lines := lines.startLine style.folded (isBlank c)
          blockFrom style (some indent) reached true { lines with text := lines.text.push c }
            (pos.after c) rest
        else .ok (lines.finish style.keep, ⟨pos, c :: rest⟩)

/-- The block scalar whose header stands at a cursor, inside a block that is indented to `indent`,
or to -1 outside of all blocks. -/
def blockScalar (folded : Bool) (indent : Int) (cursor : Cursor) :
    Except Error (String × Cursor) := do
  let (header, length) ← blockHeader cursor.rest
  match (cursor.skip length).nextLine? with
  | none => .error .headerMalformed
  | some start =>
    let style := { folded, keep := header.keep, least := max (indent + 1).toNat 1 }
    let indent? := header.deeper.map fun deeper => indent.toNat + deeper
    blockFrom style indent? 0 false {} start.toPosition start.rest

end TypeTable.Yaml
