/-!
# Decimal numbers

A decimal number is a sign, a magnitude of at most 96 bits and a scale of at most 28 decimal places.
Sign and scale belong to the number's text and not only to its value: `1.5` and `1.50` are equal and
compare alike, and so do zero and a zero with a minus sign, which a product that is too small for 28
places can be. `Decimal.compare` is the order of the exact values.
-/

namespace ReportCalc

/-- Magnitudes have at most 96 bits: they stay below this bound. -/
def Decimal.limit : Nat := 0x1000000000000000000000000

def Decimal.maxScale : Nat := 28

/-- The number `± magnitude / 10 ^ scale`. -/
structure Decimal where
  negative : Bool
  magnitude : Nat
  scale : Nat
  magnitude_lt : magnitude < Decimal.limit
  scale_le : scale ≤ Decimal.maxScale

namespace Decimal

theorem ext_iff {a b : Decimal} :
    a = b ↔ a.negative = b.negative ∧ a.magnitude = b.magnitude ∧ a.scale = b.scale := by
  cases a; cases b; simp

/-- The power of ten that moves a decimal point by `places`. -/
def tenPow (places : Nat) : Nat := Nat.pow 10 places

/-- The number with these parts, when they are in range. -/
def ofParts? (negative : Bool) (magnitude scale : Nat) : Option Decimal :=
  if h : magnitude < limit ∧ scale ≤ maxScale then
    some ⟨negative, magnitude, scale, h.1, h.2⟩
  else
    none

theorem ofParts?_eq_some {n : Bool} {m s : Nat} {d : Decimal} :
    ofParts? n m s = some d ↔ d.negative = n ∧ d.magnitude = m ∧ d.scale = s := by
  unfold ofParts?
  split
  · simp only [Option.some.injEq, eq_comm (b := d), Decimal.ext_iff]
  · rename_i h
    simp only [reduceCtorEq, false_iff]
    rintro ⟨rfl, rfl, rfl⟩
    exact h ⟨d.magnitude_lt, d.scale_le⟩

def zero : Decimal := ⟨false, 0, 0, by decide, by decide⟩

/-- A 64-bit integer as a decimal number without decimal places. -/
def ofInt64 (i : Int64) : Decimal :=
  ⟨i.toInt < 0, i.toInt.natAbs, 0,
    by have := i.toInt_lt; have := i.le_toInt; unfold limit; omega, by decide⟩

/-- The number times `10 ^ scale`, an integer. -/
def coefficient (d : Decimal) : Int := if d.negative then -(d.magnitude : Int) else d.magnitude

@[simp] theorem coefficient_ofInt64 (i : Int64) : (ofInt64 i).coefficient = i.toInt := by
  by_cases h : i.toInt < 0 <;> simp only [coefficient, ofInt64, h, decide_true, decide_false,
    if_true, Bool.false_eq_true, if_false] <;> omega

@[simp] theorem scale_ofInt64 (i : Int64) : (ofInt64 i).scale = 0 := rfl

/-- Whether the number is zero, at any scale and with either sign. -/
def isZero (d : Decimal) : Bool := d.magnitude == 0

/-- The same number, where a zero has no minus sign. -/
def unsignedZero (d : Decimal) : Decimal := { d with negative := d.negative && !d.isZero }

/-- The coefficient of the same number written with `places` decimal places. -/
def rescaled (d : Decimal) (places : Nat) : Int := d.coefficient * tenPow (places - d.scale)

/-- The order of the exact values, found by writing both numbers with the same places. -/
def compare (a b : Decimal) : Ordering :=
  Ord.compare (a.rescaled (max a.scale b.scale)) (b.rescaled (max a.scale b.scale))

/-- Two decimals are equal when their values are, whatever their scales and the signs of zeros. -/
instance : BEq Decimal where
  beq a b := a.compare b == .eq

end Decimal

end ReportCalc
