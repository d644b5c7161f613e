import TypeTable.Yaml.Cursor
import TypeTable.Yaml.Error

/-!
# Plain scalars

A plain scalar goes on over blanks and line breaks. Such a gap is kept if it lies on one line; else
its first break stands for a blank, or for nothing if more breaks follow.
-/

namespace TypeTable.Yaml

/-- The text that stands for a gap inside a scalar. -/
def foldGap (gap : List Char) : List Char :=
  match gap.filter isBreak with
  | [] => gap
  | ['\n'] => [' ']
  | '\n' :: others => others
  | breaks => breaks

/-- A plain scalar, whether a line break follows it, and what follows that gap. -/
structure Plain where
  text : String
  broken : Bool
  after : Cursor

/-- Whether a character ends a plain scalar wherever it stands. -/
def endsPlain (flow : Bool) (c : Char) (rest : List Char) : Bool :=
  (c == ':' && endsWord rest) || (flow && [',', '[', ']', '\x7b', '\x7d'].contains c)

/-- Whether a colon in a flow collection stands before an indicator. -/
def isLoneColon (flow : Bool) (c : Char) (rest : List Char) : Bool :=
  flow && c == ':' &&
    rest.head?.any [',', '?', '[', ']', '\x7b', '\x7d'].contains

/-- The plain scalar that goes on at a position, behind `text` and the gap `gap`, whose characters
are given the last first. In a block, lines of the scalar start at column `indent` or behind. -/
def plainFrom (flow : Bool) (indent : Int) (text : String) (gap : List Char) (pos : Position) :
    List Char → Except Error Plain
  | [] => .ok ⟨text, gap.any isBreak, ⟨pos, []⟩⟩
  | c :: rest =>
    if isGap c then
      if c == '\t' && gap.any isBreak && decide ((pos.column : Int) < indent) then
        .error .tabIndents
      else plainFrom flow indent text (c :: gap) (pos.after c) rest
    else if (!flow && gap.any isBreak && decide ((pos.column : Int) < indent)) ||
        (pos.column == 0 && isDocumentMark (c :: rest)) || (!gap.isEmpty && c == '#') ||
        endsPlain flow c rest then
      .ok ⟨text, gap.any isBreak, ⟨pos, c :: rest⟩⟩
    else if isLoneColon flow c rest then .error .colonMisplaced
    else
      plainFrom flow indent ((text ++ String.ofList (foldGap gap.reverse)).push c) []
        (pos.after c) rest

end TypeTable.Yaml
