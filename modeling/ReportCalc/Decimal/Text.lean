import ReportCalc.Decimal.Basic
import ReportCalc.Text.Digits

/-!
# The text of a decimal number

The written form is an optional minus sign, the integer digits, and after a point exactly `scale`
decimal places (`Decimal.display`). Reading also takes underscores between the digits, more places
than a decimal number can have, and an exponent (`Decimal.ofText?`). A zero that has a minus sign is
written with it, but no text is read as one.
-/

namespace ReportCalc.Decimal

/-- The written form: `-12.50`, `0.001`, `7`. -/
def display (d : Decimal) : String :=
  let digits := Text.paddedDigits (d.scale + 1) d.magnitude
  let whole := digits.take (digits.length - d.scale)
  let places := digits.drop (digits.length - d.scale)
  let sign := if d.negative then ['-'] else []
  String.ofList (sign ++ whole ++ (if places.isEmpty then [] else '.' :: places))

/-! ## Reading -/

/-- The magnitude and the places after rounding at the first character that has no room: a digit of
five or more rounds up, which may cost a place, and what follows the character does not count. -/
def roundAt? (magnitude places : Nat) (c : Char) : Option (Nat × Nat) :=
  if c.isDigit then
    if c < '5' then some (magnitude, places)
    else if magnitude + 1 < limit then some (magnitude + 1, places)
    else if places = 0 then none
    else some ((magnitude + 5) / 10, places - 1)
  else if c = '_' || c = '.' then some (magnitude, places)
  else none

/-- Reads digits onto a magnitude. `places?` counts them once the point has been passed, `started`
says whether there has been a digit. The integer digits have to fit; of the places as many are kept
as do. -/
def readDigits? (magnitude : Nat) (places? : Option Nat) (started : Bool) :
    List Char → Option (Nat × Nat)
  | [] => if started then some (magnitude, places?.getD 0) else none
  | c :: cs =>
    if places? = some maxScale then roundAt? magnitude maxScale c
    else if c.isDigit then
      let next := 10 * magnitude + (c.toNat - '0'.toNat)
      if next < limit then readDigits? next (places?.map (· + 1)) true cs
      else places?.bind (roundAt? magnitude · c)
    else if c = '.' && places?.isNone then readDigits? magnitude (some 0) started cs
    else if c = '_' && started then readDigits? magnitude places? started cs
    else none

/-- Reads an optional sign and digits with at most one point among them. -/
def ofPlain? (cs : List Char) : Option Decimal := do
  let (negative, digits) := match cs with
    | '-' :: rest => (true, rest)
    | '+' :: rest => (false, rest)
    | rest => (false, rest)
  let (magnitude, places) ← readDigits? 0 none false digits
  (ofParts? negative magnitude places).map unsignedZero

/-- The digits of an exponent, which may have a plus sign. -/
def exponent? : List Char → Option Nat
  | '+' :: digits => Text.digitsValue? digits
  | digits => Text.digitsValue? digits

/-- The number times a power of ten: the point moves right, and zeros are added past the places. -/
def movedRight? (d : Decimal) (exponent : Nat) : Option Decimal :=
  if exponent ≤ d.scale then ofParts? d.negative d.magnitude (d.scale - exponent)
  else if maxScale < exponent then none
  else ofParts? d.negative (d.magnitude * tenPow (exponent - d.scale)) 0

/-- The number divided by a power of ten: the point moves left. Places beyond the last one are
rounded off, a half going up, and an exponent that leaves none of the digits is refused. -/
def movedLeft? (d : Decimal) (exponent : Nat) : Option Decimal :=
  if 2 * maxScale < exponent then none
  else
    let places := d.scale + exponent
    let unit := tenPow (places - maxScale)
    ofParts? d.negative ((d.magnitude + unit / 2) / unit) (min places maxScale)

/-- Reads a plain number, the letter `e`, and an exponent. -/
def ofScientific? (cs : List Char) : Option Decimal := do
  let isMark (c : Char) : Bool := c = 'e' || c = 'E'
  let base ← ofPlain? (cs.takeWhile (!isMark ·))
  match cs.dropWhile (!isMark ·) with
  | [] => none
  | _ :: '-' :: cs => (base.movedLeft? (← exponent? cs)).map unsignedZero
  | _ :: cs => base.movedRight? (← exponent? cs)

/-- Reads a number with or without an exponent. The exponent is looked for first, because the places
of a plain number may be cut off before it. -/
def ofText? (s : String) : Option Decimal := ofScientific? s.toList <|> ofPlain? s.toList

end ReportCalc.Decimal
