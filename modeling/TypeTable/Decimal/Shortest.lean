import TypeTable.Decimal.Binary64

/-!
# The fewest digits that read back

Every decimal number closer to a binary number than to its neighbours reads back as it. Of these
decimals `shortest` takes one with the fewest digits, of two such the nearer, and of two equally
near the one with an even last digit.
-/

namespace TypeTable.Decimal

/-- A decimal number `0.d₁d₂… · 10 ^ point` by its digits and the place of its point. -/
structure Digits where
  digits : List Char
  point : Int
  deriving DecidableEq, Repr

/-- The reals that round to a binary number, by its ends and the number itself. The ends count when
the mantissa is even. -/
structure Interval where
  low : Ratio
  centre : Ratio
  high : Ratio
  closed : Bool

/-- The interval that rounds to `mantissa · 2 ^ exponent`. The ends lie half way to the neighbours;
below a power of two the neighbour is half as far away. -/
def Interval.ofBinary (mantissa : Nat) (exponent : Int) : Interval :=
  let quarter := (Ratio.ofNat 1).shift 2 (exponent - 2)
  let atPower : Bool :=
    2 * mantissa == Binary64.mantissaLimit && decide (Binary64.leastExponent < exponent)
  { low := quarter.times (4 * mantissa - if atPower then 1 else 2)
    centre := quarter.times (4 * mantissa)
    high := quarter.times (4 * mantissa + 2)
    closed := mantissa % 2 == 0 }

/-- Whether `count` steps of `10 ^ place` lie in the interval. -/
def Interval.holds (i : Interval) (count : Nat) (place : Int) : Bool :=
  let value := (Ratio.ofNat count).shift 10 place
  if i.closed then !value.below i.low && !i.high.below value
  else i.low.below value && value.below i.high

/-- The least `p` from `start` on, within `fuel` steps, for which a ratio is below `10 ^ p`. -/
def decadeFrom (r : Ratio) (start : Int) : Nat → Int
  | 0 => start
  | fuel + 1 =>
    if r.below ((Ratio.ofNat 1).shift 10 start) then start else decadeFrom r (start + 1) fuel

/-- The exponent `p` for which a ratio is below `10 ^ p` but not below `10 ^ (p - 1)`. The bit
lengths and the logarithm of two give a start that is at most a few steps too small. -/
def decade (r : Ratio) : Int :=
  let bits : Int := (r.num.log2 : Int) - r.den.log2 - 1
  decadeFrom r (bits * 30103 / 100000 - 1) 8

/-- The point of the grid with step `10 ^ place` that the number is written as, if one reads back.
Only the two points next to the number can be nearest. -/
def Interval.nearest? (i : Interval) (place : Int) : Option Nat :=
  let steps := i.centre.shift 10 (-place)
  let lower := steps.floor
  match i.holds lower place, i.holds (lower + 1) place with
  | false, false => none
  | true, false => some lower
  | false, true => some (lower + 1)
  | true, true => if steps.round = lower then some lower else some (lower + 1)

/-- The point of the first grid, from the coarsest on, that offers one, and its place. -/
def Interval.search (i : Interval) (point : Int) (digits : Nat) : Nat → Nat × Int
  | 0 => ((i.centre.shift 10 (digits - point)).round, point - digits)
  | fuel + 1 =>
    match i.nearest? (point - digits) with
    | some count => (count, point - digits)
    | none => search i point (digits + 1) fuel

/-- Seventeen digits always read back. -/
def mostDigits : Nat := 17

/-- The fewest digits that read back as the positive number `mantissa · 2 ^ exponent`. -/
def shortest (mantissa : Nat) (exponent : Int) : Digits :=
  let i := Interval.ofBinary mantissa exponent
  let (count, place) := i.search (decade i.centre) 1 mostDigits
  let digits := Nat.toDigits 10 count
  ⟨(digits.reverse.dropWhile (· == '0')).reverse, digits.length + place⟩

end TypeTable.Decimal
