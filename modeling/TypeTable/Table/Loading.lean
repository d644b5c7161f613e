import TypeTable.Failure
import TypeTable.Table.Reading
import TypeTable.Text.Blank
import TypeTable.Yaml.Document

/-!
# Tables from texts and files

A text is taken for a YAML document, and the content of a file for a text in UTF-8. A text without
a document, and one whose document is null, are refused.
-/

namespace TypeTable

/-- The document that a text holds. -/
def loadText (text : String) : Except LoadError Tree :=
  if Text.allBlank text then .error .empty
  else
    match Yaml.document text with
    | .error error => .error (.malformed error)
    | .ok document => if document.isNull then .error .empty else .ok document

/-- The text that a file holds. -/
def textOfFile (content : Except ReadError ByteArray) : Except ReadError String := do
  match String.fromUTF8? (← content) with
  | some text => return text
  | none => throw .notUnicode

/-- The document that a file holds. -/
def loadFile (content : Except ReadError ByteArray) : Except LoadError Tree :=
  match textOfFile content with
  | .error error => .error (.unreadable error)
  | .ok text => loadText text

namespace Table

/-- The table of a document, if there is one. -/
def ofLoaded (loaded : Except LoadError Tree) : Traced Failure Table :=
  match loaded with
  | .error error => Traced.ofExcept (.error (.load error))
  | .ok document => (ofDocument document).mapError .invalid

/-- The table of the document that a text holds. -/
def ofText (text : String) : Traced Failure Table :=
  ofLoaded (loadText text)

/-- The table of the document that the file at a path holds. -/
def ofFile (path : String) (content : Except ReadError ByteArray) : Traced Failure Table := do
  Traced.report (.loading path)
  ofLoaded (loadFile content)

end Table

end TypeTable
