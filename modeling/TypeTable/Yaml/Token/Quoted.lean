import TypeTable.Decimal.Numeral
import TypeTable.Yaml.Token.Plain

/-!
# Quoted scalars

Gaps are folded as in plain scalars. Between single quotes a quote is written twice; between double
quotes a backslash starts an escape, and one before a line break removes the break.
-/

namespace TypeTable.Yaml

/-- The character that a backslash and a letter stand for. -/
def escaped? : Char → Option Char
  | '0' => some '\x00'
  | 'a' => some '\x07'
  | 'b' => some '\x08'
  | 't' => some '\t'
  | '\t' => some '\t'
  | 'n' => some '\n'
  | 'v' => some '\x0b'
  | 'f' => some '\x0c'
  | 'r' => some '\r'
  | 'e' => some '\x1b'
  | ' ' => some ' '
  | '"' => some '"'
  | '/' => some '/'
  | '\\' => some '\\'
  | 'N' => some '\u0085'
  | '_' => some '\u00a0'
  | 'L' => some '\u2028'
  | 'P' => some '\u2029'
  | _ => none

/-- How many hexadecimal digits of a character's number follow a backslash and a letter. -/
def codeLength? : Char → Option Nat
  | 'x' => some 2
  | 'u' => some 4
  | 'U' => some 8
  | _ => none

/-- The character of a number. -/
def charOfCode? (code : Nat) : Option Char :=
  if code.isValidChar then some (Char.ofNat code) else none

/-- What has been read of the next part of a quoted scalar. -/
inductive QuotedPart where
  | text
  /-- A gap, the last character first; the break that a backslash removes is not in it. -/
  | gap (escaped : Bool) (chars : List Char)
  /-- A backslash. -/
  | escape
  /-- Some digits of a character's number. -/
  | code (left value : Nat)
  /-- A quote that either ends the scalar or is the first of two. -/
  | quote

/-- The text that a part stands for once it is over. -/
def QuotedPart.folded : QuotedPart → String
  | .gap false chars => String.ofList (foldGap chars.reverse)
  | .gap true chars => String.ofList (chars.reverse.filter isBreak)
  | _ => ""

/-- A gap with one more character. -/
def QuotedPart.extend (c : Char) : QuotedPart → QuotedPart
  | .gap escaped chars => .gap escaped (c :: chars)
  | _ => .gap false [c]

/-- The quoted scalar that goes on at a position, and the cursor behind it. -/
def quotedFrom (single : Bool) (text : String) (part : QuotedPart) (pos : Position) :
    List Char → Except Error (String × Cursor)
  | [] =>
    match part with
    | .quote => .ok (text, ⟨pos, []⟩)
    | _ => .error .quoteUnclosed
  | c :: rest =>
    match part with
    | .quote =>
      if c == '\'' then quotedFrom single (text.push '\'') .text (pos.after c) rest
      else .ok (text, ⟨pos, c :: rest⟩)
    | .escape =>
      if isBreak c then quotedFrom single text (.gap true []) (pos.after c) rest
      else
        match escaped? c, codeLength? c with
        | some meant, _ => quotedFrom single (text.push meant) .text (pos.after c) rest
        | none, some length => quotedFrom single text (.code length 0) (pos.after c) rest
        | none, none => .error .escapeUnknown
    | .code left value =>
      match Decimal.digitValue? c with
      | none => .error .escapeUnknown
      | some digit =>
        if left ≤ 1 then
          match charOfCode? (16 * value + digit) with
          | none => .error .escapeUnknown
          | some meant => quotedFrom single (text.push meant) .text (pos.after c) rest
        else quotedFrom single text (.code (left - 1) (16 * value + digit)) (pos.after c) rest
    | part =>
      if isGap c then quotedFrom single text (part.extend c) (pos.after c) rest
      else if pos.column == 0 && isDocumentMark (c :: rest) then .error .quoteUnclosed
      else if single && c == '\'' then
        quotedFrom single (text ++ part.folded) .quote (pos.after c) rest
      else if !single && c == '"' then .ok (text ++ part.folded, ⟨pos.after c, rest⟩)
      else if !single && c == '\\' then
        quotedFrom single (text ++ part.folded) .escape (pos.after c) rest
      else quotedFrom single ((text ++ part.folded).push c) .text (pos.after c) rest

end TypeTable.Yaml
