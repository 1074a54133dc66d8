import ReportCalc.Decimal.Basic

/-!
# Rounding to a representable decimal

An exact result `magnitude / 10 ^ scale` may need more than 96 bits or more than 28 places.
`Decimal.fit?` keeps as many places as possible: it drops the fewest digits after which the rounded
coefficient is in range, a half going to the even neighbour.
-/

namespace ReportCalc.Decimal

/-- The integer nearest to `n / d`, a half going to the even neighbour. -/
def divHalfEven (n d : Nat) : Nat :=
  if 2 * (n % d) < d ∨ 2 * (n % d) = d ∧ n / d % 2 = 0 then n / d else n / d + 1

theorem divHalfEven_one (n : Nat) : divHalfEven n 1 = n := by
  simp [divHalfEven, Nat.mod_one]

/-- Whether dropping `digits` digits of `magnitude / 10 ^ scale` leaves a representable number. -/
def fitsAfter (magnitude scale digits : Nat) : Bool :=
  scale ≤ digits + maxScale && divHalfEven magnitude (tenPow digits) < limit

/-- The representable number nearest to `± magnitude / 10 ^ scale` with the most places, or `none`
when its integer part is too large. A number that is rounded to zero keeps its sign. -/
def fit? (negative : Bool) (magnitude scale : Nat) : Option Decimal := do
  let digits ← (List.range (scale + 1)).find? (fitsAfter magnitude scale)
  ofParts? negative (divHalfEven magnitude (tenPow digits)) (scale - digits)

end ReportCalc.Decimal
