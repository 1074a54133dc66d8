import ReportCalc.Decimal.Rounding

/-!
# Decimal arithmetic

Addition, subtraction and multiplication round the exact result with `Decimal.fit?`; `none` is
overflow. Division is long division in steps of up to nine digits (`Decimal.longDivide`), so the
scale of a quotient depends on where the digits end: a quotient that needs no further digits keeps
its scale, any other one loses trailing zeros (`Decimal.trimZeros`).
-/

namespace ReportCalc.Decimal

/-- The sum. A zero operand leaves the other operand, with its own scale, as the result. -/
def add? (a b : Decimal) : Option Decimal :=
  if a.isZero then some b
  else if b.isZero then some a
  else
    let scale := max a.scale b.scale
    let sum := a.rescaled scale + b.rescaled scale
    fit? (sum < 0) sum.natAbs scale

/-- The number with the opposite sign; a zero keeps the sign it has. -/
def neg (a : Decimal) : Decimal := { a with negative := a.negative != !a.isZero }

def sub? (a b : Decimal) : Option Decimal := add? a b.neg

/-- A product of two magnitudes of at most 32 bits with more places than this is zero. -/
def vanishingScale : Nat := 47

/-- Whether the magnitude fits into 32 bits. -/
def isShort (d : Decimal) : Bool := d.magnitude < UInt32.size

/-- The product. A zero product of a zero operand, or of two short operands with very many places,
has no places. Where rounding makes it zero, only a product of two short operands loses the minus
sign. -/
def mul? (a b : Decimal) : Option Decimal :=
  let scale := a.scale + b.scale
  let product := fit? (a.negative != b.negative) (a.magnitude * b.magnitude) scale
  if a.isZero || b.isZero then some zero
  else if a.isShort && b.isShort then
    if vanishingScale < scale then some zero else product.map unsignedZero
  else
    product

/-! ## Division -/

/-- The digits to produce in one step: at most nine, and no more than the quotient and the scale
have room for. -/
def stepDigits (quotient : Nat) (scale : Int) : Nat :=
  ((List.range 10).reverse.find? fun (k : Nat) =>
    scale + (k : Int) ≤ (maxScale : Int) && quotient * tenPow k < limit).getD 0

/-- Whether a divisor has more than 64 bits. -/
def isLongDivisor (divisor : Nat) : Bool := UInt64.size ≤ divisor

/-- A quotient that, if it became too long, is shortened by a digit. A half in that digit goes to
the even neighbour, unless it is `sticky`: then it goes up. -/
def roundedQuotient? (quotient : Nat) (scale : Int) (sticky : Bool) : Option (Nat × Int) :=
  if quotient < limit then some (quotient, scale)
  else if scale ≤ 0 then none
  else
    let last := quotient % 10
    let up := last > 5 || last == 5 && (sticky || quotient / 10 % 2 == 1)
    some (quotient / 10 + (if up then 1 else 0), scale - 1)

/-- Long division by `divisor` from a quotient and remainder at `scale`. It ends when nothing
remains and the scale is not negative, or when no further digit fits and the last one is rounded,
a half going to the even neighbour. It also ends when a step makes the quotient too long: the
digit it loses then is rounded with what remains in mind, and a long divisor counts as if something
always remained. -/
def longDivide (divisor : Nat) : Nat → Nat → Nat → Int → Option (Nat × Int)
  | 0, _, _, _ => none
  | steps + 1, quotient, remainder, scale =>
    if remainder = 0 then
      if 0 ≤ scale then some (quotient, scale)
      else
        let digits := min 9 (-scale).toNat
        if quotient * tenPow digits < limit then
          longDivide divisor steps (quotient * tenPow digits) 0 (scale + digits)
        else
          none
    else
      match stepDigits quotient scale with
      | 0 =>
        if scale < 0 then none
        else
          let up := 2 * remainder > divisor || 2 * remainder == divisor && quotient % 2 == 1
          roundedQuotient? (if up then quotient + 1 else quotient) scale true
      | digits =>
        let next := quotient * tenPow digits + remainder * tenPow digits / divisor
        let rest := remainder * tenPow digits % divisor
        if next < limit then longDivide divisor steps next rest (scale + digits)
        else roundedQuotient? next (scale + digits) (rest != 0 || isLongDivisor divisor)

/-- Drops a block of `digits` trailing zeros if they are there and the scale allows it. -/
def dropBlock (digits : Nat) (number : Nat × Nat) : Nat × Nat :=
  if digits ≤ number.2 ∧ number.1 % tenPow digits = 0 then
    (number.1 / tenPow digits, number.2 - digits)
  else
    number

/-- Drops a block of eight trailing zeros, which is only tried while the lowest 32 bits of the
coefficient are clear. -/
def dropLongBlock (number : Nat × Nat) : Nat × Nat :=
  if number.1 % UInt32.size = 0 then dropBlock 8 number else number

/-- Removes trailing zeros: long blocks first, then at most one block of four, two and one. -/
def trimZeros (number : Nat × Nat) : Nat × Nat :=
  dropBlock 1 (dropBlock 2 (dropBlock 4
    (dropLongBlock (dropLongBlock (dropLongBlock number)))))

/-- The quotient by a number that is not zero. A quotient that is rounded to zero has no sign. -/
def div? (a b : Decimal) : Option Decimal :=
  if a.isZero then some zero
  else
    let dividend := a.magnitude
    let divisor := b.magnitude
    let scale : Int := a.scale - b.scale
    match longDivide divisor 60 (dividend / divisor) (dividend % divisor) scale with
    | none => none
    | some (quotient, scale) =>
      let number := (quotient, scale.toNat)
      let number := if dividend % divisor = 0 then number else trimZeros number
      (ofParts? (a.negative != b.negative) number.1 number.2).map unsignedZero

end ReportCalc.Decimal
