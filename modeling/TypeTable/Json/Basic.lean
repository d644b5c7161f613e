/-!
# JSON values

Texts, lists and objects whose members keep their order. The compact form has no blanks outside
texts; the spread form puts every member on a line of its own, two columns deeper than what holds
it.
-/

namespace TypeTable

/-- A JSON value made of texts, lists and objects. -/
inductive Json where
  | text (value : String)
  | list (items : List Json)
  | object (members : List (String × Json))
  deriving Inhabited

namespace Json

/-! ## Texts -/

/-- A digit of base sixteen. -/
def hexDigit (n : Nat) : Char :=
  if n < 10 then Char.ofNat ('0'.toNat + n) else Char.ofNat ('a'.toNat + (n - 10))

/-- A character inside quotes: the quote, the backslash and the characters below the blank are
escaped, and nothing else. -/
def escapeChar (c : Char) : List Char :=
  if c = '"' then ['\\', '"']
  else if c = '\\' then ['\\', '\\']
  else if c = '\x08' then ['\\', 'b']
  else if c = '\x0c' then ['\\', 'f']
  else if c = '\n' then ['\\', 'n']
  else if c = '\r' then ['\\', 'r']
  else if c = '\t' then ['\\', 't']
  else if c < ' ' then ['\\', 'u', '0', '0', hexDigit (c.toNat / 16), hexDigit (c.toNat % 16)]
  else [c]

/-- A text in quotes. -/
def quote (text : String) : List Char :=
  '"' :: text.toList.flatMap escapeChar ++ ['"']

/-! ## Compact form -/

/-- Pieces with a separator between each two. -/
def separated (separator : List Char) : List (List Char) → List Char
  | [] => []
  | [piece] => piece
  | piece :: next :: rest => piece ++ separator ++ separated separator (next :: rest)

mutual

/-- A value without blanks. -/
def compactChars : Json → List Char
  | .text value => quote value
  | .list items => '[' :: separated [','] (compactItems items) ++ [']']
  | .object members => '\x7b' :: separated [','] (compactMembers members) ++ ['\x7d']
termination_by structural value => value

/-- The items of a list without blanks. -/
def compactItems : List Json → List (List Char)
  | [] => []
  | item :: rest => item.compactChars :: compactItems rest
termination_by structural items => items

/-- The members of an object without blanks. -/
def compactMembers : List (String × Json) → List (List Char)
  | [] => []
  | (name, value) :: rest => (quote name ++ ':' :: value.compactChars) :: compactMembers rest
termination_by structural members => members

end

/-- The compact text of a value. -/
def compact (value : Json) : String :=
  String.ofList value.compactChars

/-! ## Spread form -/

/-- A new line that starts at a depth. -/
def lineAt (depth : Nat) : List Char :=
  '\n' :: List.replicate (2 * depth) ' '

/-- Pieces on lines of their own between brackets; brackets around nothing stand together. -/
def bracketed (opening closing : Char) (depth : Nat) : List (List Char) → List Char
  | [] => [opening, closing]
  | piece :: rest =>
    opening :: lineAt (depth + 1) ++ separated (',' :: lineAt (depth + 1)) (piece :: rest) ++
      lineAt depth ++ [closing]

mutual

/-- A value at a depth, spread over lines. -/
def spreadChars (depth : Nat) : Json → List Char
  | .text value => quote value
  | .list items => bracketed '[' ']' depth (spreadItems depth items)
  | .object members => bracketed '\x7b' '\x7d' depth (spreadMembers depth members)
termination_by structural value => value

/-- The items of a list at a depth. -/
def spreadItems (depth : Nat) : List Json → List (List Char)
  | [] => []
  | item :: rest => item.spreadChars (depth + 1) :: spreadItems depth rest
termination_by structural items => items

/-- The members of an object at a depth. -/
def spreadMembers (depth : Nat) : List (String × Json) → List (List Char)
  | [] => []
  | (name, value) :: rest =>
    (quote name ++ ':' :: ' ' :: value.spreadChars (depth + 1)) :: spreadMembers depth rest
termination_by structural members => members

end

/-- The text of a value spread over lines. -/
def spread (value : Json) : String :=
  String.ofList (value.spreadChars 0)

end Json

end TypeTable
