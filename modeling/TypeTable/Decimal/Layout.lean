import TypeTable.Decimal.Shortest

/-!
# The text of a number

A layout says which numbers are written without an exponent. `Binary64.text` writes a number with
the fewest digits that read back.
-/

namespace TypeTable.Decimal

/-- Numbers `0.d₁d₂… · 10 ^ point` with `least < point ≤ greatest` are written without an
exponent. -/
structure Layout where
  least : Int
  greatest : Int

/-- The zeros that fill a number up to a place. -/
def zeros (count : Int) : List Char :=
  List.replicate count.toNat '0'

/-- Whole and fractional digits with a point between them, at least one digit on both sides. -/
def Digits.positional (d : Digits) : List Char :=
  let digits := zeros (1 - d.point) ++ d.digits
  let whole := (max d.point 1).toNat
  let padded := digits ++ zeros (whole + 1 - digits.length)
  padded.take whole ++ '.' :: padded.drop whole

/-- One whole digit, the others behind a point if there are any, and the power of ten. -/
def Digits.scientific (d : Digits) : List Char :=
  let mantissa := match d.digits with
    | first :: second :: rest => first :: '.' :: second :: rest
    | digits => digits
  mantissa ++ 'e' :: (toString (d.point - 1)).toList

/-- The digits as a layout writes them. -/
def Digits.text (layout : Layout) (d : Digits) : String :=
  String.ofList <|
    if layout.least < d.point ∧ d.point ≤ layout.greatest then d.positional else d.scientific

end TypeTable.Decimal

namespace TypeTable.Binary64

/-- Numbers from `0.00001` up to sixteen whole digits are written without an exponent. -/
def layout : Decimal.Layout := ⟨-5, 16⟩

/-- The text of a number in a document. -/
def text : Binary64 → String
  | .nan => ".nan"
  | .infinite false => ".inf"
  | .infinite true => "-.inf"
  | .finite negative mantissa exponent =>
    let sign := if negative then "-" else ""
    if mantissa = 0 then sign ++ "0.0"
    else sign ++ (Decimal.shortest mantissa exponent).text layout

end TypeTable.Binary64
