/-!
# Tokens

The words of a YAML text. The opening and the end of block collections are tokens too, made from
the indentation.
-/

namespace TypeTable.Yaml

/-- Octets of a tag, which escapes can state one by one. -/
abbrev Octets := List UInt8

/-- An instruction before a document. -/
inductive Directive where
  | version (major minor : Nat)
  | tag (handle : String) (lead : Octets)
  deriving DecidableEq, Repr

/-- A word of the syntax. -/
inductive Token where
  | directive (directive : Directive)
  | documentStart
  | documentEnd
  | blockSeqStart
  | blockMapStart
  | blockEnd
  | flowSeqStart
  | flowSeqEnd
  | flowMapStart
  | flowMapEnd
  | blockEntry
  | flowEntry
  | key
  | value
  | anchor (name : String)
  | alias (name : String)
  | tag (handle : String) (suffix : Octets)
  /-- A scalar; the text of a plain one may stand for a value other than itself. -/
  | scalar (plain : Bool) (text : String)
  deriving DecidableEq, Repr

end TypeTable.Yaml
