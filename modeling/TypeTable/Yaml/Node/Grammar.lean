import TypeTable.Yaml.Error
import TypeTable.Yaml.Node.Basic

/-!
# From tokens to nodes

A document is a node between the marks of a stream. Where no node is written, a blank one stands:
behind the mark of an entry, key or value, and behind an anchor or a tag.
-/

namespace TypeTable.Yaml

/-! ## Anchors and tag handles -/

/-- The anchors defined so far with their numbers. -/
abbrev Anchors := List (String × Nat)

/-- Gives an anchor a number. A name that is defined again is still one name. -/
def Anchors.set (name : String) (number : Nat) : Anchors → Anchors
  | [] => [(name, number)]
  | (other, old) :: rest =>
    if other = name then (name, number) :: rest else (other, old) :: Anchors.set name number rest

/-- The octets that tag handles stand for. -/
abbrev Handles := List (String × Octets)

/-- The octets of a text. -/
def textOctets (text : String) : Octets :=
  text.toUTF8.toList

/-- The handles that need no directive. -/
def Handles.usual : Handles :=
  [("!", textOctets "!"), ("!!", textOctets "tag:yaml.org,2002:")]

/-- The tag that a handle and a suffix make. -/
def Handles.resolve (handles : Handles) (handle : String) (suffix : Octets) :
    Except Error Octets :=
  if handle.isEmpty then .ok suffix
  else
    match handles.lookup handle with
    | some lead => .ok (lead ++ suffix)
    | none => .error (.handleUnknown handle)

/-! ## Reading tokens -/

/-- The anchors known so far, and the tokens that are left. -/
structure Remaining where
  anchors : Anchors
  tokens : List Token

/-- A computation that takes tokens. -/
abbrev Reader := StateT Remaining (Except Error)

namespace Reader

/-- The next token. -/
def peek? : Reader (Option Token) :=
  return (← get).tokens.head?

/-- Takes the next token. -/
def skip : Reader Unit :=
  modify fun r => { r with tokens := r.tokens.tail }

/-- Takes the next token if it is `token`. -/
def accept (token : Token) : Reader Bool := do
  if (← peek?) = some token then
    skip
    return true
  else return false

/-- Whether the next token is one of `ends`. -/
def isAt (ends : List Token) : Reader Bool :=
  return (← peek?).any ends.contains

/-- Takes the comma in front of a member of a flow collection; the first has none. -/
def separator (first : Bool) : Reader Unit := do
  if !first then
    if !(← accept .flowEntry) then throw .separatorExpected

/-- A blank node if the next token is one of `ends`, else what `read` gives. -/
def unlessAt (ends : List Token) (read : Reader Node) : Reader Node := do
  if ← isAt ends then return Node.blank else read

/-- The number of an anchor that is defined here: how many names there are without it. -/
def define (name : String) : Reader Nat := do
  let number := (← get).anchors.length
  modify fun r => { r with anchors := r.anchors.set name number }
  return number

/-- An anchor, if one stands here. -/
def anchor? : Reader (Option String) := do
  match ← peek? with
  | some (.anchor name) =>
    skip
    return some name
  | _ => return none

/-- A tag, if one stands here. -/
def tag? (handles : Handles) : Reader (Option Octets) := do
  match ← peek? with
  | some (.tag handle suffix) =>
    skip
    return some (← handles.resolve handle suffix)
  | _ => return none

/-- An anchor and a tag in either order. -/
def properties (handles : Handles) : Reader Properties := do
  let before ← anchor?
  let tag ← tag? handles
  let name ← if before.isNone && tag.isSome then anchor? else pure before
  return ⟨← name.mapM define, tag⟩

end Reader

/-- Where a node stands, which decides what it may be. -/
inductive Place where
  /-- In a flow collection. -/
  | flow
  /-- In a block. -/
  | block
  /-- In a block mapping, where the entries of a sequence need not be indented. -/
  | mapping
  deriving DecidableEq

/-! ## Nodes

Each reader takes fuel for the readers that it calls. `fuelFor` gives enough: of two calls that
lead from one to the next, one takes a token. -/

section
open Reader
variable (handles : Handles)

mutual

/-- A node. -/
def readNode (fuel : Nat) (place : Place) : Reader Node := do
  match fuel with
  | 0 => throw .tooDeep
  | fuel + 1 =>
    if let some (.alias name) := ← peek? then
      skip
      match (← get).anchors.lookup name with
      | some anchor => return .alias anchor
      | none => throw (.aliasUnknown name)
    else
      let properties ← properties handles
      match ← peek? with
      | some (.scalar plain text) =>
        skip
        return .scalar properties plain text
      | some .flowSeqStart =>
        skip
        return .seq properties (← readFlowItems fuel true)
      | some .flowMapStart =>
        skip
        return .map properties (← readFlowEntries fuel true)
      | token =>
        if token = some .blockEntry ∧ place = .mapping then
          return .seq properties (← readUnindentedItems fuel)
        else if token = some .blockSeqStart ∧ place ≠ .flow then
          skip
          return .seq properties (← readBlockItems fuel)
        else if token = some .blockMapStart ∧ place ≠ .flow then
          skip
          return .map properties (← readBlockEntries fuel)
        else if properties.anchor.isSome || properties.tag.isSome then
          return .scalar properties true ""
        else throw .nodeExpected
termination_by structural fuel

/-- The items of a block sequence up to its end. -/
def readBlockItems (fuel : Nat) : Reader (List Node) := do
  match fuel with
  | 0 => throw .tooDeep
  | fuel + 1 =>
    if ← accept .blockEntry then
      let item ← unlessAt [.blockEntry, .blockEnd] (readNode fuel .block)
      return item :: (← readBlockItems fuel)
    else if ← accept .blockEnd then return []
    else throw .entryExpected
termination_by structural fuel

/-- The items of a sequence that is not indented: as many as there are marks. -/
def readUnindentedItems (fuel : Nat) : Reader (List Node) := do
  match fuel with
  | 0 => throw .tooDeep
  | fuel + 1 =>
    if ← accept .blockEntry then
      let item ← unlessAt [.blockEntry, .key, .value, .blockEnd] (readNode fuel .block)
      return item :: (← readUnindentedItems fuel)
    else return []
termination_by structural fuel

/-- The entries of a block mapping up to its end. -/
def readBlockEntries (fuel : Nat) : Reader (List (Node × Node)) := do
  match fuel with
  | 0 => throw .tooDeep
  | fuel + 1 =>
    if ← accept .key then
      let ends := [.key, .value, .blockEnd]
      let key ← unlessAt ends (readNode fuel .mapping)
      let value ←
        if ← accept .value then unlessAt ends (readNode fuel .mapping) else pure Node.blank
      return (key, value) :: (← readBlockEntries fuel)
    else if ← accept .blockEnd then return []
    else throw .keyExpected
termination_by structural fuel

/-- The items of a flow sequence up to its end; a comma stands in front of all but the first. -/
def readFlowItems (fuel : Nat) (first : Bool) : Reader (List Node) := do
  match fuel with
  | 0 => throw .tooDeep
  | fuel + 1 =>
    if ← accept .flowSeqEnd then return []
    separator first
    if ← accept .flowSeqEnd then return []
    else if ← accept .key then
      let entry ← readPair fuel
      return .map {} [entry] :: (← readFlowItems fuel false)
    else
      let item ← readNode fuel .flow
      return item :: (← readFlowItems fuel false)
termination_by structural fuel

/-- The only entry of a mapping without brackets in a flow sequence. Where its key is blank, the
token behind the mark of the key is passed over. -/
def readPair (fuel : Nat) : Reader (Node × Node) := do
  match fuel with
  | 0 => throw .tooDeep
  | fuel + 1 =>
    let key ←
      if ← isAt [.value, .flowEntry, .flowSeqEnd] then do
        skip
        pure Node.blank
      else readNode fuel .flow
    let value ←
      if ← accept .value then unlessAt [.flowEntry, .flowSeqEnd] (readNode fuel .flow)
      else pure Node.blank
    return (key, value)
termination_by structural fuel

/-- The entries of a flow mapping up to its end; a comma stands in front of all but the first. A
node without the mark of a key is a key with a blank value. -/
def readFlowEntries (fuel : Nat) (first : Bool) : Reader (List (Node × Node)) := do
  match fuel with
  | 0 => throw .tooDeep
  | fuel + 1 =>
    if ← accept .flowMapEnd then return []
    separator first
    if ← accept .flowMapEnd then return []
    else if ← accept .key then
      let key ← unlessAt [.value, .flowEntry, .flowMapEnd] (readNode fuel .flow)
      let value ←
        if ← accept .value then unlessAt [.flowEntry, .flowMapEnd] (readNode fuel .flow)
        else pure Node.blank
      return (key, value) :: (← readFlowEntries fuel false)
    else
      let key ← readNode fuel .flow
      return (key, Node.blank) :: (← readFlowEntries fuel false)
termination_by structural fuel

end

/-- Enough fuel for tokens. -/
def fuelFor (tokens : List Token) : Nat :=
  2 * tokens.length + 2

end

/-! ## Documents -/

/-- The directives in front of a document: whether a version is stated, and the handles. -/
structure Directives where
  versioned : Bool := false
  handles : Handles := []

/-- One more directive. A version is stated at most once, and a handle as well. -/
def Directives.add (directives : Directives) : Directive → Except Error Directives
  | .version major minor =>
    if directives.versioned then .error .directiveRepeated
    else if major = 1 ∧ (minor = 1 ∨ minor = 2) then .ok { directives with versioned := true }
    else .error .versionUnsupported
  | .tag handle lead =>
    if (directives.handles.lookup handle).isSome then .error .directiveRepeated
    else .ok { directives with handles := (handle, lead) :: directives.handles }

/-- The directives in front of tokens, and the tokens behind them. -/
def takeDirectives (directives : Directives) : List Token → Except Error (Directives × List Token)
  | .directive d :: rest => do takeDirectives (← directives.add d) rest
  | tokens => .ok (directives, tokens)

/-- Whether nothing is written between the start of a document and tokens behind it. -/
def endsDocument : List Token → Bool
  | [] | .documentStart :: _ | .documentEnd :: _ | .directive _ :: _ => true
  | _ => false

/-- The node of the only document that tokens hold, if they hold one. Only directives need the mark
of the document's start. -/
def documentNode? (tokens : List Token) : Except Error (Option Node) := do
  if tokens.isEmpty then return none
  else
    let (directives, body) ← takeDirectives {} tokens
    let read := fun tokens =>
      (readNode (directives.handles ++ Handles.usual) (fuelFor tokens) .block).run ⟨[], tokens⟩
    let (node, after) ← match body with
      | .documentStart :: body =>
        if endsDocument body then pure (Node.blank, body)
        else do
          let (node, remaining) ← read body
          pure (node, remaining.tokens)
      | body =>
        if body.length < tokens.length then throw .documentExpected
        else do
          let (node, remaining) ← read body
          pure (node, remaining.tokens)
    if (after.dropWhile (· = .documentEnd)).isEmpty then return some node
    else throw .documentEndExpected

end TypeTable.Yaml
