/-!
# Blank text

The characters with the Unicode property `White_Space`, and the texts made of nothing else.
-/

namespace TypeTable.Text

/-- The Unicode property `White_Space`. -/
def isBlank (c : Char) : Bool :=
  ('\u0009' ≤ c && c ≤ '\u000d') || c == '\u0020' || c == '\u0085' || c == '\u00a0' ||
    c == '\u1680' || ('\u2000' ≤ c && c ≤ '\u200a') || c == '\u2028' || c == '\u2029' ||
    c == '\u202f' || c == '\u205f' || c == '\u3000'

/-- A text without a character outside `White_Space`. -/
def allBlank (text : String) : Bool :=
  text.toList.all isBlank

end TypeTable.Text
