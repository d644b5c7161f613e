/-!
# Reading positions

The characters that a text may hold, the classes that the syntax distinguishes, and the position
that a text has been read to. Line breaks of every form are made one character up front, so that a
position moves by one line for each.
-/

namespace TypeTable.Yaml

/-! ## Characters -/

/-- The characters of a document: no control characters besides the tab and the line breaks. -/
def isAllowed (c : Char) : Bool :=
  c == '\t' || c == '\n' || c == '\r' || (' ' ≤ c && c ≤ '~') || c == '\u0085' ||
    ('\u00a0' ≤ c && c ≤ '\ufffd') || 0x10000 ≤ c.toNat

/-- The line breaks of a text whose breaks have been made one character. -/
def isBreak (c : Char) : Bool :=
  c == '\n' || c == '\u2028' || c == '\u2029'

/-- The characters that separate words on a line. -/
def isBlank (c : Char) : Bool :=
  c == ' ' || c == '\t'

/-- Blanks and line breaks. -/
def isGap (c : Char) : Bool :=
  isBlank c || isBreak c

/-- The characters of names. -/
def isWordChar (c : Char) : Bool :=
  c.isAlphanum || c == '_' || c == '-'

/-- Carriage returns, alone or before a line feed, and next-line characters become line feeds. -/
def joinBreaks : List Char → List Char
  | '\r' :: '\n' :: rest => '\n' :: joinBreaks rest
  | '\r' :: rest => '\n' :: joinBreaks rest
  | '\u0085' :: rest => '\n' :: joinBreaks rest
  | c :: rest => c :: joinBreaks rest
  | [] => []

/-- Whether a word ends here. -/
def endsWord : List Char → Bool
  | [] => true
  | c :: _ => isGap c

/-- Whether a line that starts here starts or ends a document. -/
def isDocumentMark : List Char → Bool
  | '-' :: '-' :: '-' :: rest => endsWord rest
  | '.' :: '.' :: '.' :: rest => endsWord rest
  | _ => false

/-! ## Positions -/

/-- A place in a text, counted from zero. -/
structure Position where
  line : Nat
  column : Nat
  deriving DecidableEq, Repr

/-- The place behind a character. -/
def Position.after (pos : Position) (c : Char) : Position :=
  if isBreak c then ⟨pos.line + 1, 0⟩ else ⟨pos.line, pos.column + 1⟩

/-- What is left to read, and where it starts. -/
structure Cursor extends Position where
  rest : List Char

namespace Cursor

/-- The cursor behind `count` characters of its line. -/
def skip (cursor : Cursor) (count : Nat) : Cursor :=
  ⟨⟨cursor.line, cursor.column + count⟩, cursor.rest.drop count⟩

/-- The longest run of characters of a class without line breaks, and the cursor behind it. -/
def span (cursor : Cursor) (p : Char → Bool) : List Char × Cursor :=
  let run := cursor.rest.takeWhile p
  (run, cursor.skip run.length)

/-- The cursor behind blanks. -/
def skipBlanks (cursor : Cursor) : Cursor :=
  (cursor.span isBlank).2

/-- Whether the next character is `c`. -/
def startsWith (cursor : Cursor) (c : Char) : Bool :=
  cursor.rest.head? == some c

/-- The cursor at the next line, if nothing but blanks and a comment stands before it. -/
def nextLine? (cursor : Cursor) : Option Cursor :=
  let cursor := cursor.skipBlanks
  let rest := if cursor.startsWith '#' then cursor.rest.dropWhile (!isBreak ·) else cursor.rest
  match rest with
  | [] => some { cursor with rest := [] }
  | c :: rest => if isBreak c then some ⟨⟨cursor.line + 1, 0⟩, rest⟩ else none

end Cursor

end TypeTable.Yaml
