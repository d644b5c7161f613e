import TypeTable.Decimal.Numeral
import TypeTable.Yaml.Cursor
import TypeTable.Yaml.Error
import TypeTable.Yaml.Token.Basic

/-!
# Anchors, tags and directives

A tag is a handle and a suffix; which octets the handle stands for is said by directives. Octets
that are not characters of a tag are written as a percent sign and two hexadecimal digits, as many
together as the coding of one character takes.
-/

namespace TypeTable.Yaml

/-! ## Octets -/

/-- The characters of a tag that stands outside angle brackets. -/
def isTagChar (c : Char) : Bool :=
  isWordChar c || ";/?:@&=+$.%!~*'()".toList.contains c

/-- The characters of a tag between angle brackets. -/
def isUriChar (c : Char) : Bool :=
  isTagChar c || c == ',' || c == '[' || c == ']'

/-- How many octets follow the first octet of a character. -/
def followers? (octet : Nat) : Option Nat :=
  if octet < 0x80 then some 0
  else if 0xc0 ≤ octet ∧ octet < 0xe0 then some 1
  else if 0xe0 ≤ octet ∧ octet < 0xf0 then some 2
  else if 0xf0 ≤ octet ∧ octet < 0xf8 then some 3
  else none

/-- The octets of a text of tag characters, of which the first `due` must go on a character. -/
def octetsFrom? (due : Nat) : List Char → Option Octets
  | [] => if due = 0 then some [] else none
  | '%' :: a :: b :: rest =>
    match Decimal.natural? 16 [a, b] with
    | none => none
    | some octet =>
      match due with
      | left + 1 =>
        if 0x80 ≤ octet ∧ octet < 0xc0 then (octetsFrom? left rest).map (octet.toUInt8 :: ·)
        else none
      | 0 =>
        match followers? octet with
        | some next => (octetsFrom? next rest).map (octet.toUInt8 :: ·)
        | none => none
  | c :: rest =>
    if due = 0 ∧ c ≠ '%' then (octetsFrom? 0 rest).map (c.toUInt8 :: ·) else none

/-- The octets of a text of tag characters up to the first zero. -/
def octets? (text : List Char) : Option Octets :=
  (octetsFrom? 0 text).map fun octets => octets.takeWhile (· != 0)

/-- The octets of at least one tag character at a cursor, and the cursor behind them. -/
def octetsAt (isMember : Char → Bool) (cursor : Cursor) : Except Error (Octets × Cursor) :=
  let (run, after) := cursor.span isMember
  match run, octets? run with
  | _ :: _, some octets => .ok (octets, after)
  | _, _ => .error .tagMalformed

/-! ## Anchors and aliases -/

/-- The name at a cursor, and the cursor behind it. -/
def anchorName (cursor : Cursor) : Except Error (String × Cursor) :=
  let (name, after) := cursor.span isWordChar
  let ends := match after.rest with
    | [] => true
    | c :: _ => isGap c || "?:,]\x7d%@`".toList.contains c
  if name.isEmpty || !ends then .error .anchorMalformed else .ok (String.ofList name, after)

/-! ## Tags -/

/-- The tag behind a mark at a cursor, without what must follow it. -/
def tagParts (cursor : Cursor) : Except Error (String × Octets × Cursor) := do
  if cursor.startsWith '<' then
    let (suffix, after) ← octetsAt isUriChar (cursor.skip 1)
    if after.startsWith '>' then .ok ("", suffix, after.skip 1) else .error .tagMalformed
  else
    let (name, after) := cursor.span isWordChar
    if after.startsWith '!' then
      let (suffix, after) ← octetsAt isTagChar (after.skip 1)
      .ok ("!" ++ String.ofList name ++ "!", suffix, after)
    else
      let (run, after) := cursor.span isTagChar
      match octets? run with
      | none => .error .tagMalformed
      | some [] => .ok ("", ['!'.toUInt8], after)
      | some suffix => .ok ("!", suffix, after)

/-- The tag behind a mark at a cursor, and the cursor behind it. -/
def tagToken (flow : Bool) (cursor : Cursor) : Except Error (Token × Cursor) := do
  let (handle, suffix, after) ← tagParts cursor
  if endsWord after.rest || (flow && after.startsWith ',') then
    .ok (.tag handle suffix, after)
  else .error .tagMalformed

/-! ## Directives -/

/-- A number of a version, of at most nine digits. -/
def versionNumber (cursor : Cursor) : Except Error (Nat × Cursor) :=
  let (digits, after) := cursor.span Char.isDigit
  match Decimal.natural? 10 digits with
  | some n => if digits.length ≤ 9 then .ok (n, after) else .error .directiveMalformed
  | none => .error .directiveMalformed

/-- The version that a directive states. -/
def versionDirective (cursor : Cursor) : Except Error (Directive × Cursor) := do
  let (major, after) ← versionNumber cursor
  if after.startsWith '.' then
    let (minor, after) ← versionNumber (after.skip 1)
    .ok (.version major minor, after)
  else .error .directiveMalformed

/-- The handle and the octets that a directive states. -/
def tagDirective (cursor : Cursor) : Except Error (Directive × Cursor) := do
  if !cursor.startsWith '!' then .error .directiveMalformed
  else
    let (name, after) := (cursor.skip 1).span isWordChar
    let (handle, after) ←
      if after.startsWith '!' then .ok ("!" ++ String.ofList name ++ "!", after.skip 1)
      else if name.isEmpty then .ok ("!", after)
      else .error .directiveMalformed
    let gap := after.skipBlanks
    if gap.column == after.column then .error .directiveMalformed
    else
      let (lead, after) ← octetsAt isUriChar gap
      if endsWord after.rest then .ok (.tag handle lead, after) else .error .directiveMalformed

/-- The directive behind its mark at a cursor, and the cursor at the next line. -/
def directiveToken (cursor : Cursor) : Except Error (Token × Cursor) := do
  let (name, after) := cursor.span isWordChar
  if !endsWord after.rest then .error .directiveMalformed
  else
    let (directive, after) ← match String.ofList name with
      | "YAML" => versionDirective after.skipBlanks
      | "TAG" => tagDirective after.skipBlanks
      | _ => .error .directiveMalformed
    match after.nextLine? with
    | some next => .ok (.directive directive, next)
    | none => .error .directiveMalformed

end TypeTable.Yaml
