import TypeTable.Yaml.Token.Block
import TypeTable.Yaml.Token.Property
import TypeTable.Yaml.Token.Quoted

/-!
# From text to tokens

A key in one line is known as a key only by the colon behind it. So the place of every token that
may be such a key is kept until the colon is found, the line ends, or the key has grown too long;
then the tokens that open the mapping and the key are put in front of it.

In block style the indentation opens and ends collections: a collection is opened by an entry that
is deeper than the collection around it, and ended by a token that is not as deep.
-/

namespace TypeTable.Yaml

/-- A token that turns out to be a key if a colon follows. -/
structure PendingKey extends Position where
  /-- Nothing but a key can stand there. -/
  required : Bool
  /-- The number of tokens before it. -/
  index : Nat

/-- What is known of a text up to a position. -/
structure Lexer where
  /-- The tokens so far, the last first. -/
  tokens : List Token := []
  count : Nat := 0
  /-- The columns of the open block collections, the innermost first. -/
  indents : List Nat := []
  /-- Whether a key in one line may start here. -/
  keyAllowed : Bool := true
  /-- The pending key of the innermost flow collection, or of the block. -/
  key : Option PendingKey := none
  /-- The pending keys of the collections around it; none in block style. -/
  outerKeys : List (Option PendingKey) := []

namespace Lexer

/-- Whether a flow collection is open. -/
def inFlow (lexer : Lexer) : Bool :=
  !lexer.outerKeys.isEmpty

/-- The column of the innermost block collection, -1 if there is none. -/
def indent (lexer : Lexer) : Int :=
  match lexer.indents with
  | [] => -1
  | column :: _ => column

/-- One more token. -/
def emit (lexer : Lexer) (token : Token) : Lexer :=
  { lexer with tokens := token :: lexer.tokens, count := lexer.count + 1 }

/-- Tokens put in at a place, in order. -/
def insertAt (lexer : Lexer) (index : Nat) (tokens : List Token) : Lexer :=
  let later := lexer.count - index
  { lexer with
    tokens := lexer.tokens.take later ++ tokens.reverse ++ lexer.tokens.drop later
    count := lexer.count + tokens.length }

/-! ## Pending keys -/

/-- Gives up the pending key, unless it had to be one. -/
def dropKey (lexer : Lexer) : Except Error Lexer :=
  match lexer.key with
  | some key => if key.required then .error .keyUnfinished else .ok { lexer with key := none }
  | none => .ok lexer

/-- Keeps the place of the next token, if it may be a key. -/
def saveKey (lexer : Lexer) (pos : Position) : Except Error Lexer := do
  if lexer.keyAllowed then
    let lexer ← lexer.dropKey
    let required := !lexer.inFlow && lexer.indent == (pos.column : Int)
    return { lexer with key := some ⟨pos, required, lexer.count⟩ }
  else return lexer

/-- The longest key in one line. -/
def longestKey : Nat := 1024

/-- Whether a pending key can no longer be followed by its colon. -/
def isStale (pos : Position) (key : PendingKey) : Bool :=
  key.line < pos.line || key.column + longestKey < pos.column

/-- A pending key at a position, given up if it is stale. -/
def expire (pos : Position) (key? : Option PendingKey) : Except Error (Option PendingKey) :=
  match key? with
  | some key =>
    if isStale pos key then if key.required then .error .keyUnfinished else .ok none
    else .ok (some key)
  | none => .ok none

/-- Gives up the keys that are stale at a position. -/
def expireKeys (lexer : Lexer) (pos : Position) : Except Error Lexer := do
  let key ← expire pos lexer.key
  let outerKeys ← lexer.outerKeys.mapM (expire pos)
  return { lexer with key, outerKeys }

/-! ## Indentation -/

/-- Ends the block collections that are deeper than a column. -/
def unindent (lexer : Lexer) (column : Int) : Lexer :=
  if lexer.inFlow then lexer
  else
    let ended := lexer.indents.takeWhile fun (c : Nat) => decide (column < (c : Int))
    let lexer := { lexer with indents := lexer.indents.drop ended.length }
    ended.foldl (fun lexer _ => lexer.emit .blockEnd) lexer

/-- Opens a block collection at a column and a place among the tokens, if the column is deeper than
the collection around it. -/
def openBlock (lexer : Lexer) (column index : Nat) (opening : Token) : Lexer :=
  if lexer.inFlow || decide ((column : Int) ≤ lexer.indent) then lexer
  else { lexer.insertAt index [opening] with indents := column :: lexer.indents }

/-! ## Tokens -/

/-- A lexer and what is left to read. -/
abbrev Step := Except Error (Lexer × Cursor)

/-- A token of the document's frame, which ends all block collections. -/
def frame (lexer : Lexer) : Except Error Lexer := do
  let lexer ← (lexer.unindent (-1)).dropKey
  return { lexer with keyAllowed := false }

/-- The start of a flow collection. -/
def openFlow (lexer : Lexer) (cursor : Cursor) (token : Token) : Step := do
  let lexer ← lexer.saveKey cursor.toPosition
  let lexer := lexer.emit token
  return ({ lexer with key := none, outerKeys := lexer.key :: lexer.outerKeys, keyAllowed := true },
    cursor.skip 1)

/-- The end of a flow collection. -/
def closeFlow (lexer : Lexer) (cursor : Cursor) (token : Token) : Step := do
  let lexer ← lexer.dropKey
  let lexer := match lexer.outerKeys with
    | key :: outerKeys => { lexer with key, outerKeys }
    | [] => lexer
  return ({ lexer.emit token with keyAllowed := false }, cursor.skip 1)

/-- The mark between the entries of a flow collection. -/
def flowEntry (lexer : Lexer) (cursor : Cursor) : Step := do
  let lexer ← lexer.dropKey
  return ({ lexer.emit .flowEntry with keyAllowed := true }, cursor.skip 1)

/-- The mark of an entry of a block sequence. -/
def blockEntry (lexer : Lexer) (cursor : Cursor) : Step := do
  if !lexer.inFlow && !lexer.keyAllowed then .error .entryMisplaced
  else
    let lexer ← (lexer.openBlock cursor.column lexer.count .blockSeqStart).dropKey
    return ({ lexer.emit .blockEntry with keyAllowed := true }, cursor.skip 1)

/-- The mark of a key that may take more than a line. -/
def keyMark (lexer : Lexer) (cursor : Cursor) : Step := do
  if !lexer.inFlow && !lexer.keyAllowed then .error .keyMisplaced
  else
    let lexer ← (lexer.openBlock cursor.column lexer.count .blockMapStart).dropKey
    return ({ lexer.emit .key with keyAllowed := !lexer.inFlow }, cursor.skip 1)

/-- The mark of a value, which makes the pending key a key. -/
def valueMark (lexer : Lexer) (cursor : Cursor) : Step :=
  match lexer.key with
  | some key =>
    let lexer := lexer.insertAt key.index [.key]
    let lexer := lexer.openBlock key.column key.index .blockMapStart
    .ok ({ lexer.emit .value with key := none, keyAllowed := false }, cursor.skip 1)
  | none =>
    if !lexer.inFlow && !lexer.keyAllowed then .error .valueMisplaced
    else
      let lexer := lexer.openBlock cursor.column lexer.count .blockMapStart
      .ok ({ lexer.emit .value with keyAllowed := !lexer.inFlow }, cursor.skip 1)

/-- A token that may be a key, or start one. -/
def word (lexer : Lexer) (cursor : Cursor) (read : Except Error (Token × Cursor)) : Step := do
  let lexer ← lexer.saveKey cursor.toPosition
  let (token, after) ← read
  return ({ lexer.emit token with keyAllowed := false }, after)

/-- A plain scalar. Behind a line break a key may start. -/
def plainScalar (lexer : Lexer) (cursor : Cursor) : Step := do
  let lexer ← lexer.saveKey cursor.toPosition
  let plain ← plainFrom lexer.inFlow (lexer.indent + 1) "" [] cursor.toPosition cursor.rest
  return ({ lexer.emit (.scalar true plain.text) with keyAllowed := plain.broken }, plain.after)

/-- A quoted scalar. -/
def quotedScalar (lexer : Lexer) (cursor : Cursor) (single : Bool) : Step :=
  let start := cursor.skip 1
  lexer.word cursor do
    let (text, after) ← quotedFrom single "" .text start.toPosition start.rest
    return (.scalar false text, after)

/-- A block scalar. -/
def blockText (lexer : Lexer) (cursor : Cursor) (folded : Bool) : Step := do
  let lexer ← lexer.dropKey
  let (text, after) ← blockScalar folded lexer.indent (cursor.skip 1)
  return ({ lexer.emit (.scalar false text) with keyAllowed := true }, after)

/-- The characters that start a plain scalar only in some places, or nowhere. -/
def indicators : List Char := "-?:,[]\x7b\x7d#&*!|>'\"%@`".toList

/-- Whether a plain scalar can start with a character that has this behind it. -/
def startsPlain (flow : Bool) (c : Char) (rest : List Char) : Bool :=
  !(isGap c || indicators.contains c) ||
    (c == '-' && !rest.head?.any isBlank) ||
    (!flow && (c == '?' || c == ':') && !endsWord rest)

/-- The next token, which starts at the cursor with `c`. -/
def next (lexer : Lexer) (cursor : Cursor) (c : Char) (rest : List Char) : Step := do
  let flow := lexer.inFlow
  let atStart := cursor.column == 0
  if atStart && c == '%' then
    let lexer ← lexer.frame
    let (token, after) ← directiveToken (cursor.skip 1)
    return (lexer.emit token, after)
  else if atStart && isDocumentMark cursor.rest then
    let lexer ← lexer.frame
    return (lexer.emit (if c == '-' then .documentStart else .documentEnd), cursor.skip 3)
  else if c == '[' then lexer.openFlow cursor .flowSeqStart
  else if c == '\x7b' then lexer.openFlow cursor .flowMapStart
  else if c == ']' then lexer.closeFlow cursor .flowSeqEnd
  else if c == '\x7d' then lexer.closeFlow cursor .flowMapEnd
  else if c == ',' then lexer.flowEntry cursor
  else if c == '-' && endsWord rest then lexer.blockEntry cursor
  else if c == '?' && (flow || endsWord rest) then lexer.keyMark cursor
  else if c == ':' && (flow || endsWord rest) then lexer.valueMark cursor
  else if c == '*' then
    lexer.word cursor do
      let (name, after) ← anchorName (cursor.skip 1)
      return (.alias name, after)
  else if c == '&' then
    lexer.word cursor do
      let (name, after) ← anchorName (cursor.skip 1)
      return (.anchor name, after)
  else if c == '!' then lexer.word cursor (tagToken flow (cursor.skip 1))
  else if c == '|' && !flow then lexer.blockText cursor false
  else if c == '>' && !flow then lexer.blockText cursor true
  else if c == '\'' then lexer.quotedScalar cursor true
  else if c == '"' then lexer.quotedScalar cursor false
  else if startsPlain flow c rest then lexer.plainScalar cursor
  else .error (.characterMisplaced c)

/-- The cursor at the next token, and whether a key in one line may start there. Tabs separate
tokens where they cannot be taken for indentation. A mark of the byte order at the start of a line
is passed over; what follows it stands in the second column. -/
def skipGap (flow keyAllowed inComment : Bool) (pos : Position) : List Char → Bool × Cursor
  | [] => (keyAllowed, ⟨pos, []⟩)
  | c :: rest =>
    if isBreak c then skipGap flow (keyAllowed || !flow) false (pos.after c) rest
    else if inComment || c == ' ' || (c == '\t' && (flow || !keyAllowed)) ||
        (c == '\ufeff' && pos.column == 0) then
      skipGap flow keyAllowed inComment (pos.after c) rest
    else if c == '#' then skipGap flow keyAllowed true (pos.after c) rest
    else (keyAllowed, ⟨pos, c :: rest⟩)

/-- The tokens from a cursor on. Each step reads at least one character. -/
def run (lexer : Lexer) (cursor : Cursor) : Nat → Except Error Lexer
  | 0 => .ok lexer
  | fuel + 1 => do
    let (keyAllowed, cursor) :=
      skipGap lexer.inFlow lexer.keyAllowed false cursor.toPosition cursor.rest
    let lexer ← { lexer with keyAllowed }.expireKeys cursor.toPosition
    match cursor.rest with
    | [] => lexer.frame
    | c :: rest =>
      let (lexer, cursor) ← (lexer.unindent cursor.column).next cursor c rest
      lexer.run cursor fuel

end Lexer

/-- The tokens of a text. -/
def tokens (text : String) : Except Error (List Token) := do
  let chars := text.toList
  match chars.find? (!isAllowed ·) with
  | some c => .error (.characterRefused c)
  | none =>
    let lexer ← ({} : Lexer).run ⟨⟨0, 0⟩, joinBreaks chars⟩ (chars.length + 1)
    return lexer.tokens.reverse

end TypeTable.Yaml
