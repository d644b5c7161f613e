import TypeTable.Decimal.Numeral
import TypeTable.Tree.Basic
import TypeTable.Yaml.Error

/-!
# The values of plain scalars

A plain scalar stands for null, a truth value, an integer or a floating point number if it has the
form of one, and else for its text.
-/

namespace TypeTable.Yaml

/-- The texts of null. -/
def isNullText (text : String) : Bool :=
  ["~", "null", "Null", "NULL"].contains text

/-- The truth value that a text states. -/
def boolOfText? (text : String) : Option Bool :=
  if ["true", "True", "TRUE"].contains text then some true
  else if ["false", "False", "FALSE"].contains text then some false
  else none

/-! ## Integers -/

/-- Whether a text is a zero before other digits, which is not a number. -/
def isZeroPadded (text : List Char) : Bool :=
  let digits := match text with
    | '-' :: rest | '+' :: rest => rest
    | text => text
  match digits with
  | '0' :: next :: rest => (next :: rest).all Char.isDigit
  | _ => false

/-- The natural number that a text without sign states, in the base that it starts with. -/
def naturalOfText? : List Char → Option Nat
  | '0' :: 'x' :: digits => Decimal.natural? 16 digits
  | '0' :: 'o' :: digits => Decimal.natural? 8 digits
  | '0' :: 'b' :: digits => Decimal.natural? 2 digits
  | digits => Decimal.natural? 10 digits

/-- The integer that a text states. -/
def intOfText? (text : List Char) : Option Int :=
  if isZeroPadded text then none
  else
    match text with
    | '-' :: rest => (naturalOfText? rest).map fun n => -(n : Int)
    | '+' :: rest => (naturalOfText? rest).map Int.ofNat
    | text => (naturalOfText? text).map Int.ofNat

/-- What becomes of an integer of a size. -/
inductive IntFit where
  | fits
  /-- Too large for a value, but still an integer. -/
  | refused
  /-- So large that it is no integer. -/
  | exceeds

/-- Values have 64 bits, with a sign only if they are negative; numbers up to 128 bits are
integers. -/
def intFit (n : Int) : IntFit :=
  if -0x8000000000000000 ≤ n ∧ n ≤ 0xffffffffffffffff then .fits
  else if -0x80000000000000000000000000000000 ≤ n ∧ n ≤ 0xffffffffffffffffffffffffffffffff then
    .refused
  else .exceeds

/-- The integer value that a text states, unless it states none. -/
def intTree? (text : List Char) : Except Error (Option Tree) :=
  match intOfText? text with
  | none => .ok none
  | some n =>
    match intFit n with
    | .fits => .ok (some (.int n))
    | .refused => .error .integerTooLarge
    | .exceeds => .ok none

/-! ## Floating point numbers -/

/-- The number that a text states. Infinity and NaN have texts of their own; a numeral too large to
be finite states no number. -/
def floatOfText? (text : List Char) : Option Binary64 :=
  let unsigned := match text with
    | '+' :: rest => rest
    | text => text
  if [".inf", ".Inf", ".INF"].contains (String.ofList unsigned) then some (.infinite false)
  else if ["-.inf", "-.Inf", "-.INF"].contains (String.ofList text) then some (.infinite true)
  else if [".nan", ".NaN", ".NAN"].contains (String.ofList text) then some .nan
  else if text.head? = some '+' ∧ (unsigned.head? = some '+' ∨ unsigned.head? = some '-') then none
  else (Binary64.ofText? unsigned).filter Binary64.isFinite

/-! ## Scalars -/

/-- The value of a plain scalar. -/
def plainTree (text : String) : Except Error Tree := do
  if text.isEmpty || isNullText text then return .null
  else
    match boolOfText? text with
    | some b => return .bool b
    | none =>
      match ← intTree? text.toList with
      | some value => return value
      | none =>
        if isZeroPadded text.toList then return .text text
        else
          match floatOfText? text.toList with
          | some x => return .float x
          | none => return .text text

/-- The kinds of value that a tag can ask of a scalar. -/
inductive ScalarTag where
  | null
  | bool
  | int
  | float

/-- What a tag asks of a scalar, if it asks for more than a text. -/
def ScalarTag.ofText? : String → Option ScalarTag
  | "tag:yaml.org,2002:null" => some .null
  | "tag:yaml.org,2002:bool" => some .bool
  | "tag:yaml.org,2002:int" => some .int
  | "tag:yaml.org,2002:float" => some .float
  | _ => none

/-- The value that a text states under a tag that asks for one. -/
def ScalarTag.tree (tag : ScalarTag) (text : String) : Except Error Tree := do
  let found? ← match tag with
    | .null => pure (if isNullText text then some .null else none)
    | .bool => pure ((boolOfText? text).map .bool)
    | .int => intTree? text.toList
    | .float => pure ((floatOfText? text.toList).map .float)
  match found? with
  | some value => return value
  | none => throw .scalarMismatch

end TypeTable.Yaml
