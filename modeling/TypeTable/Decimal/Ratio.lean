/-!
# Ratios of naturals

Exact arithmetic for numbers between two notations: a ratio is moved by powers of a base and rounded
to a natural.
-/

namespace TypeTable.Decimal

/-- A ratio of naturals; the denominator is not zero. -/
structure Ratio where
  num : Nat
  den : Nat
  deriving Repr

namespace Ratio

/-- A natural. -/
def ofNat (n : Nat) : Ratio := ⟨n, 1⟩

/-- A ratio times `base ^ e`. -/
def shift (r : Ratio) (base : Nat) (e : Int) : Ratio :=
  if 0 ≤ e then ⟨r.num * Nat.pow base e.toNat, r.den⟩
  else ⟨r.num, r.den * Nat.pow base (-e).toNat⟩

/-- A ratio times a natural. -/
def times (r : Ratio) (n : Nat) : Ratio := ⟨r.num * n, r.den⟩

/-- Whether one ratio is below another. -/
def below (r s : Ratio) : Bool :=
  r.num * s.den < s.num * r.den

/-- The greatest natural not above a ratio. -/
def floor (r : Ratio) : Nat :=
  r.num / r.den

/-- On which side of the middle between two naturals a ratio lies. -/
def side (r : Ratio) : Ordering :=
  compare (2 * (r.num % r.den)) r.den

/-- The natural nearest to a ratio, a tie going to the even one. -/
def round (r : Ratio) : Nat :=
  match r.side with
  | .lt => r.floor
  | .gt => r.floor + 1
  | .eq => r.floor + r.floor % 2

end Ratio

end TypeTable.Decimal
