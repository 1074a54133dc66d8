import ReportCalc.Text.Digits

/-!
# Calendar dates

A date of the proleptic Gregorian calendar is the number of its day, counted from 1970-01-01, so
dates are ordered as their day numbers. `Date.ofCivil` and `Date.civil` convert from and to year,
month and day; years before 1 are zero and negative.
-/

namespace ReportCalc

/-- A day, counted from 1970-01-01. -/
structure Date where
  dayNumber : Int
  deriving DecidableEq

/-- A year, a month from 1 to 12 and a day of the month from 1. -/
structure CivilDate where
  year : Int
  month : Nat
  day : Nat
  deriving DecidableEq

namespace CivilDate

def isLeapYear (year : Int) : Bool :=
  year % 4 == 0 && (year % 100 != 0 || year % 400 == 0)

/-- The number of days of a month, or zero for a month that does not exist. -/
def daysInMonth (year : Int) (month : Nat) : Nat :=
  match month with
  | 1 | 3 | 5 | 7 | 8 | 10 | 12 => 31
  | 4 | 6 | 9 | 11 => 30
  | 2 => if isLeapYear year then 29 else 28
  | _ => 0

def isValid (c : CivilDate) : Bool := 1 ≤ c.day && c.day ≤ daysInMonth c.year c.month

/-- `YYYY-MM-DD`, with a minus sign before a negative year and a plus sign before one of more than
four digits. -/
def chars (c : CivilDate) : List Char :=
  let sign := if c.year < 0 then ['-'] else if 9999 < c.year then ['+'] else []
  sign ++ Text.paddedDigits 4 c.year.natAbs ++ '-' :: Text.paddedDigits 2 c.month ++
    '-' :: Text.paddedDigits 2 c.day

/-- Reads `YYYY-MM-DD` off the front; the year may have a sign. -/
def read? (cs : List Char) : Option (CivilDate × List Char) := do
  let (negative, cs) := match cs with
    | '-' :: rest => (true, rest)
    | '+' :: rest => (false, rest)
    | rest => (false, rest)
  let (year, cs) ← Text.takeDigits? 4 cs
  let '-' :: cs := cs | none
  let (month, cs) ← Text.takeDigits? 2 cs
  let '-' :: cs := cs | none
  let (day, cs) ← Text.takeDigits? 2 cs
  let date : CivilDate := ⟨if negative then -(year : Int) else year, month, day⟩
  if date.isValid then some (date, cs) else none

end CivilDate

namespace Date

/-- The day number of a civil date. Years are counted from March, so that a leap day ends its year;
a cycle of 400 such years has 146097 days and 1970-01-01 is day 719468 of the count. -/
def ofCivil (c : CivilDate) : Date :=
  let year := if c.month ≤ 2 then c.year - 1 else c.year
  let cycle := year / 400
  let yearOfCycle := year % 400
  let month : Int := if c.month ≤ 2 then c.month + 9 else c.month - 3
  let dayOfYear := (153 * month + 2) / 5 + c.day - 1
  let dayOfCycle := yearOfCycle * 365 + yearOfCycle / 4 - yearOfCycle / 100 + dayOfYear
  ⟨cycle * 146097 + dayOfCycle - 719468⟩

def civil (d : Date) : CivilDate :=
  let days := d.dayNumber + 719468
  let cycle := days / 146097
  let dayOfCycle := days % 146097
  let yearOfCycle :=
    (dayOfCycle - dayOfCycle / 1460 + dayOfCycle / 36524 - dayOfCycle / 146096) / 365
  let dayOfYear := dayOfCycle - (365 * yearOfCycle + yearOfCycle / 4 - yearOfCycle / 100)
  let month := (5 * dayOfYear + 2) / 153
  let day := dayOfYear - (153 * month + 2) / 5 + 1
  let civilMonth := if month < 10 then month + 3 else month - 9
  let year := yearOfCycle + cycle * 400 + (if civilMonth ≤ 2 then 1 else 0)
  ⟨year, civilMonth.toNat, day.toNat⟩

def compare (a b : Date) : Ordering := Ord.compare a.dayNumber b.dayNumber

def display (d : Date) : String := String.ofList d.civil.chars

def ofText? (s : String) : Option Date :=
  match CivilDate.read? s.toList with
  | some (date, []) => some (ofCivil date)
  | _ => none

end Date

end ReportCalc
