import TypeTable.Decimal.Binary64

/-!
# Reading numerals

`natural?` reads a numeral of a base up to sixteen, `Binary64.ofText?` a decimal numeral with an
optional sign, point and exponent. Both refuse a text that is not a numeral as a whole.
-/

namespace TypeTable.Decimal

/-- The value of a digit, letters of either case standing for ten to fifteen. -/
def digitValue? (c : Char) : Option Nat :=
  if '0' ≤ c ∧ c ≤ '9' then some (c.toNat - '0'.toNat)
  else if 'a' ≤ c ∧ c ≤ 'f' then some (c.toNat - 'a'.toNat + 10)
  else if 'A' ≤ c ∧ c ≤ 'F' then some (c.toNat - 'A'.toNat + 10)
  else none

/-- The value of digits that follow a number read so far. -/
def naturalFrom? (base : Nat) (value : Nat) : List Char → Option Nat
  | [] => some value
  | c :: rest =>
    match digitValue? c with
    | some digit => if digit < base then naturalFrom? base (value * base + digit) rest else none
    | none => none

/-- The value of a text of one or more digits of a base. -/
def natural? (base : Nat) (text : List Char) : Option Nat :=
  if text.isEmpty then none else naturalFrom? base 0 text

/-- Whether a number with an optional sign is negative, and the text behind the sign. -/
def splitSign : List Char → Bool × List Char
  | '-' :: rest => (true, rest)
  | '+' :: rest => (false, rest)
  | text => (false, text)

/-- The value of the exponent that ends a numeral; none is zero. -/
def exponent? : List Char → Option Int
  | [] => some 0
  | mark :: rest =>
    if mark = 'e' ∨ mark = 'E' then
      let (negative, digits) := splitSign rest
      (natural? 10 digits).map fun n => if negative then -(n : Int) else n
    else none

end TypeTable.Decimal

namespace TypeTable.Binary64
open Decimal

/-- The number nearest to a decimal numeral, whose point needs a digit on one side only. -/
def ofText? (text : List Char) : Option Binary64 :=
  let (negative, text) := splitSign text
  let whole := text.takeWhile Char.isDigit
  let (fraction, rest) := match text.dropWhile Char.isDigit with
    | '.' :: rest => (rest.takeWhile Char.isDigit, rest.dropWhile Char.isDigit)
    | rest => ([], rest)
  match natural? 10 (whole ++ fraction), exponent? rest with
  | some digits, some exponent => some (ofDecimal negative digits (exponent - fraction.length))
  | _, _ => none

end TypeTable.Binary64
