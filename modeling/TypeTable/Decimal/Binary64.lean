import TypeTable.Decimal.Ratio

/-!
# Binary floating point numbers of 64 bits

A number is a sign, a mantissa of 53 bits and an exponent of two. `Binary64.ofRatio` rounds a ratio
of naturals to the nearest such number, a tie going to the even mantissa. All NaNs are one value
here, as nothing a document holds or shows tells them apart.
-/

namespace TypeTable

/-- A number of the 64 bit binary format; `finite negative m e` is `± m · 2 ^ e`. -/
inductive Binary64 where
  | nan
  | infinite (negative : Bool)
  | finite (negative : Bool) (mantissa : Nat) (exponent : Int)
  deriving DecidableEq, Repr, Inhabited

namespace Binary64

open Decimal (Ratio)

/-- One more than the largest mantissa, which has 53 bits. -/
def mantissaLimit : Nat := 9007199254740992

/-- The exponent of the numbers next to zero. -/
def leastExponent : Int := -1074

/-- The exponent of the largest numbers. -/
def greatestExponent : Int := 971

/-- The zero of a sign. -/
def zero (negative : Bool) : Binary64 :=
  .finite negative 0 leastExponent

/-- Both zeros. -/
def isZero : Binary64 → Bool
  | .finite _ m _ => m == 0
  | _ => false

/-- Whether a number is neither infinite nor NaN. -/
def isFinite : Binary64 → Bool
  | .finite .. => true
  | _ => false

/-- Equality of keys: NaN is one value, and so are the two zeros. -/
def same (a b : Binary64) : Bool :=
  a == b || (a.isZero && b.isZero)

/-- The exponent of the number next to a ratio when the mantissa uses all its bits. -/
def fittingExponent (r : Ratio) : Int :=
  let low : Int := (r.num.log2 : Int) - r.den.log2 - 53
  let mantissa := r.shift 2 (-low)
  let fitting := if mantissa.below (.ofNat mantissaLimit) then low else low + 1
  max fitting leastExponent

/-- The number nearest to a ratio with a sign, a tie going to the even mantissa. -/
def ofRatio (negative : Bool) (r : Ratio) : Binary64 :=
  if r.num = 0 then zero negative
  else
    let e := fittingExponent r
    let m := (r.shift 2 (-e)).round
    let (m, e) := if m = mantissaLimit then (m / 2, e + 1) else (m, e)
    if greatestExponent < e then .infinite negative else .finite negative m e

/-- More decimal places than this before the point exceed every finite number. -/
def greatestMagnitude : Int := 310

/-- A number that starts this far behind the point is nearer to zero than to any other. -/
def leastMagnitude : Int := -330

/-- The number nearest to `± digits · 10 ^ exponent`. The magnitude is looked at first, so an
exponent of any size costs no more than the range of the format. -/
def ofDecimal (negative : Bool) (digits : Nat) (exponent : Int) : Binary64 :=
  let places : Int := (Nat.toDigits 10 digits).length + exponent
  if digits = 0 ∨ places < leastMagnitude then zero negative
  else if greatestMagnitude < places then .infinite negative
  else ofRatio negative ((Ratio.ofNat digits).shift 10 exponent)

theorem same_refl (a : Binary64) : a.same a = true := by
  simp [same]

theorem same_symm (a b : Binary64) : a.same b = b.same a := by
  simp [same, Bool.and_comm, Bool.beq_comm (a := a)]

end Binary64

end TypeTable
