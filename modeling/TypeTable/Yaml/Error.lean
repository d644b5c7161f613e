/-!
# Errors of a YAML text

What can be wrong with a text before anything is known about what it should hold.
-/

namespace TypeTable.Yaml

/-- Why a text is not a YAML document. -/
inductive Error where
  | characterRefused (c : Char)
  | characterMisplaced (c : Char)
  | tabIndents
  | keyUnfinished
  | entryMisplaced
  | keyMisplaced
  | valueMisplaced
  | colonMisplaced
  | quoteUnclosed
  | escapeUnknown
  | headerMalformed
  | anchorMalformed
  | tagMalformed
  | directiveMalformed
  | directiveRepeated
  | versionUnsupported
  | handleUnknown (handle : String)
  | nodeExpected
  | entryExpected
  | keyExpected
  | separatorExpected
  | documentExpected
  | documentEndExpected
  | aliasUnknown (name : String)
  | keyRepeated
  | tooDeep
  | tooManyAliases
  | scalarMismatch
  | integerTooLarge
  deriving DecidableEq, Repr

/-- The wording of an error. -/
def Error.message : Error → String
  | .characterRefused c => "control character number " ++ toString c.toNat ++ " is not allowed"
  | .characterMisplaced c => "nothing can start with " ++ String.singleton c
  | .tabIndents => "a tab stands where blanks should indent"
  | .keyUnfinished => "a key is not followed by ':'"
  | .entryMisplaced => "a sequence entry is not allowed here"
  | .keyMisplaced => "a mapping key is not allowed here"
  | .valueMisplaced => "a mapping value is not allowed here"
  | .colonMisplaced => "a ':' stands before an indicator"
  | .quoteUnclosed => "a quoted scalar is not closed"
  | .escapeUnknown => "an escape sequence has no meaning"
  | .headerMalformed => "the header of a block scalar is malformed"
  | .anchorMalformed => "an anchor or alias is malformed"
  | .tagMalformed => "a tag is malformed"
  | .directiveMalformed => "a directive is malformed or unknown"
  | .directiveRepeated => "a directive is repeated"
  | .versionUnsupported => "the document is of an unsupported version"
  | .handleUnknown handle => "the tag handle " ++ handle ++ " is not declared"
  | .nodeExpected => "a node is missing"
  | .entryExpected => "a sequence entry is missing"
  | .keyExpected => "a mapping key is missing"
  | .separatorExpected => "a ',' or a closing bracket is missing"
  | .documentExpected => "the start of the document is missing"
  | .documentEndExpected => "the text goes on behind its document"
  | .aliasUnknown name => "the anchor " ++ name ++ " is not defined"
  | .keyRepeated => "a key is repeated"
  | .tooDeep => "collections are nested too deeply"
  | .tooManyAliases => "aliases are expanded too often"
  | .scalarMismatch => "a scalar does not have the form that its tag asks for"
  | .integerTooLarge => "an integer is too large"

end TypeTable.Yaml
