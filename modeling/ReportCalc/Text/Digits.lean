/-!
# Decimal digits

Printing a number with leading zeros and reading a run of digits back.
-/

namespace ReportCalc.Text

/-- The decimal digits of a number, with leading zeros up to at least `width` of them. -/
def paddedDigits (width n : Nat) : List Char :=
  let digits := Nat.toDigits 10 n
  List.replicate (width - digits.length) '0' ++ digits

/-- The number that a run of decimal digits stands for; `none` for an empty run or another
character. -/
def digitsValue? : List Char → Option Nat
  | [] => none
  | digits => digits.foldlM
      (fun value c => if c.isDigit then some (10 * value + (c.toNat - '0'.toNat)) else none) 0

def takeDigits? (width : Nat) (cs : List Char) : Option (Nat × List Char) :=
  if (cs.take width).length = width then
    (digitsValue? (cs.take width)).map (·, cs.drop width)
  else
    none

end ReportCalc.Text
