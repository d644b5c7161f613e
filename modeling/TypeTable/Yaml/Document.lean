import TypeTable.Tree.Equality
import TypeTable.Yaml.Node.Grammar
import TypeTable.Yaml.Resolve
import TypeTable.Yaml.Token.Scan

/-!
# From a text to a document

Scalars get their values, and an alias is replaced by what its anchor stands in front of. A key must
not be repeated in a mapping. Nesting and the number of aliases followed are bounded, so a text of
modest size does not make a huge document.
-/

namespace TypeTable.Yaml

/-! ## Tags -/

/-- The text of octets, if they code one. -/
def octetsText? (octets : Octets) : Option String :=
  String.fromUTF8? ⟨octets.toArray⟩

/-- Whether octets start with the mark of a tag that an application defines. -/
def isLocal (octets : Octets) : Bool :=
  octets.head? == some '!'.toUInt8

/-- The tag that a value keeps: one that an application defines, if its octets code a text. -/
def keptTag? (tag : Option Octets) : Option Tag :=
  match tag with
  | none => none
  | some octets =>
    if isLocal octets then
      (octetsText? octets).map fun text =>
        match text.toList with
        | '!' :: first :: rest => Tag.ofText (String.ofList (first :: rest))
        | _ => Tag.ofText text
    else none

/-- The value of a scalar whose tag is not kept. -/
def scalarTree (tag : Option Octets) (plain : Bool) (text : String) : Except Error Tree :=
  match tag with
  | none => if plain then plainTree text else .ok (.text text)
  | some octets =>
    match (octetsText? octets).bind ScalarTag.ofText? with
    | some asked => asked.tree text
    | none => if isLocal octets && plain then plainTree text else .ok (.text text)

/-! ## Mappings -/

/-- Whether a key is already in a mapping. -/
def hasKey (key : Tree) (entries : Fields) : Bool :=
  entries.any fun entry => key.same entry.1

/-! ## Expansion -/

/-- How deeply collections may be nested. -/
def deepest : Nat := 128

/-- How many aliases may be followed for each mark that a document is made of. -/
def aliasesPerMark : Nat := 100

/-- A computation that counts the aliases that may still be followed. -/
abbrev Expansion := StateT Nat (Except Error)

/-- Follows one more alias. -/
def Expansion.follow : Expansion Unit := do
  match ← get with
  | 0 => throw .tooManyAliases
  | left + 1 => set left

/-- The node that a node stands for. -/
def target (anchored : List (Nat × Node)) (node : Node) : Expansion Node := do
  match node with
  | .alias anchor =>
    Expansion.follow
    match anchored.lookup anchor with
    | some found => return found
    | none => throw (.aliasUnknown (toString anchor))
  | node => return node

/-- A value under the tag that it keeps. -/
def withTag (tag? : Option Tag) (value : Tree) : Tree :=
  match tag? with
  | some tag => .tagged tag value
  | none => value

/-- The entries of a mapping that read in order make, no key twice. -/
def collectEntries (tree : Node → Expansion Tree) (entries : List (Node × Node)) :
    Expansion Fields :=
  entries.foldlM (fun read entry => do
    let key ← tree entry.1
    if hasKey key read then throw .keyRepeated
    let value ← tree entry.2
    return read ++ [(key, value)]) []

/-- The tree of a node, of which at most `depth` collections are nested. -/
def expand (anchored : List (Nat × Node)) (depth : Nat) (node : Node) : Expansion Tree := do
  match ← target anchored node with
  | .alias anchor => throw (.aliasUnknown (toString anchor))
  | .scalar properties plain text =>
    match keptTag? properties.tag with
    | some tag => return .tagged tag (← scalarTree none plain text)
    | none => scalarTree properties.tag plain text
  | .seq properties items =>
    match depth with
    | 0 => throw .tooDeep
    | depth + 1 =>
      let items ← items.mapM (expand anchored depth)
      return withTag (keptTag? properties.tag) (.seq items)
  | .map properties entries =>
    match depth with
    | 0 => throw .tooDeep
    | depth + 1 =>
      let entries ← collectEntries (expand anchored depth) entries
      return withTag (keptTag? properties.tag) (.map entries)
termination_by structural depth

/-- The document that a text holds. A text without a document holds null. -/
def document (text : String) : Except Error Tree := do
  match ← documentNode? (← tokens text) with
  | none => return .null
  | some node =>
    (expand (node.anchored []) deepest node).run' (aliasesPerMark * node.weight)

end TypeTable.Yaml
