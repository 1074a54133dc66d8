import ReportCalc.Calendar.Date

/-!
# Date-times

A date-time is an instant, in nanoseconds since 1970-01-01 00:00 UTC, together with the offset from
UTC in which it is written. Equality and order look at the instant only. There are two written
forms: the interchange form of RFC 3339 (`DateTime.interchange`, read back by
`DateTime.ofInterchange?`) and the form used in messages (`DateTime.display`).
-/

namespace ReportCalc

/-- An instant in nanoseconds since 1970-01-01 00:00 UTC, and an offset in seconds east of UTC. -/
structure DateTime where
  instant : Int
  offset : Int

namespace DateTime

/-- Two date-times are equal when they are the same instant. -/
instance : BEq DateTime where
  beq a b := a.instant == b.instant

def compare (a b : DateTime) : Ordering := Ord.compare a.instant b.instant

def isUtc (t : DateTime) : Bool := t.offset == 0

/-- The reading of a clock: a date, the time of day and the nanoseconds of the second. -/
structure Clock where
  date : Date
  hour : Nat
  minute : Nat
  second : Nat
  nanosecond : Nat

def perSecond : Int := 1000000000

/-- What a clock at the offset shows at the instant. -/
def clock (t : DateTime) : Clock :=
  let shown := t.instant + t.offset * perSecond
  let seconds := shown / perSecond
  let secondOfDay := (seconds % 86400).toNat
  { date := ⟨seconds / 86400⟩
    hour := secondOfDay / 3600
    minute := secondOfDay / 60 % 60
    second := secondOfDay % 60
    nanosecond := (shown % perSecond).toNat }

/-- The date-time at which a clock at the offset shows the reading. -/
def ofClock (c : Clock) (offset : Int) : DateTime :=
  let seconds : Int := c.date.dayNumber * 86400 + (c.hour * 3600 + c.minute * 60 + c.second : Nat)
  ⟨(seconds - offset) * perSecond + c.nanosecond, offset⟩

/-- The digits of a fraction of a second without trailing zeros. -/
def fractionDigits (nanosecond : Nat) : List Char :=
  ((Text.paddedDigits 9 nanosecond).reverse.dropWhile (· == '0')).reverse

def signText (offset : Int) : Char := if offset < 0 then '-' else '+'

/-! ## The interchange form -/

/-- `YYYY-MM-DDTHH:MM:SS`, the fraction of the second if there is one, and `Z` or `±HH:MM`. -/
def interchange (t : DateTime) : String :=
  let c := t.clock
  let two := Text.paddedDigits 2
  let fraction := fractionDigits c.nanosecond
  let minutes := t.offset.natAbs / 60
  let zone := if t.offset = 0 then ['Z']
    else signText t.offset :: two (minutes / 60) ++ ':' :: two (minutes % 60)
  String.ofList (c.date.civil.chars ++ 'T' :: two c.hour ++ ':' :: two c.minute ++
    ':' :: two c.second ++ (if fraction.isEmpty then [] else '.' :: fraction) ++ zone)

/-- Reads a fraction of a second, if one is there, in nanoseconds; digits after the ninth do not
count. -/
def readFraction? : List Char → Option (Nat × List Char)
  | '.' :: cs => do
    let digits := cs.takeWhile Char.isDigit
    if digits.isEmpty then none
    let nanosecond ← Text.digitsValue? ((digits ++ List.replicate 9 '0').take 9)
    some (nanosecond, cs.dropWhile Char.isDigit)
  | cs => some (0, cs)

/-- Reads `Z` or `±HH:MM`, with at most 25 hours, as an offset in seconds. -/
def readOffset? : List Char → Option Int
  | ['Z'] | ['z'] => some 0
  | sign :: cs => do
    let (hours, cs) ← Text.takeDigits? 2 cs
    let ':' :: cs := cs | none
    let (minutes, cs) ← Text.takeDigits? 2 cs
    let seconds : Int := (hours * 3600 + minutes * 60 : Nat)
    if !cs.isEmpty || 25 < hours || 59 < minutes then none
    if sign = '+' then some seconds else if sign = '-' then some (-seconds) else none
  | [] => none

/-- Whether a clock in UTC shows 23:59:59 on the last day of a month, the only place where a leap
second may follow. -/
def precedesLeapSecond (t : DateTime) : Bool :=
  let c := clock { t with offset := 0 }
  let date := c.date.civil
  c.hour == 23 && c.minute == 59 && c.second == 59 &&
    date.day == CivilDate.daysInMonth date.year date.month

/-- The date-time of a reading of a clock at the offset, whose second may be 60. A leap second is
read as the last nanosecond before it. -/
def ofReading? (c : Clock) (offset : Int) : Option DateTime :=
  if 23 < c.hour || 59 < c.minute || 60 < c.second then none
  else if c.second = 60 then
    let t := ofClock { c with second := 59, nanosecond := 999999999 } offset
    if t.precedesLeapSecond then some t else none
  else
    some (ofClock c offset)

/-- Reads the interchange form; any one ASCII character may stand between the date and the time. -/
def ofInterchange? (s : String) : Option DateTime := do
  let (date, cs) ← CivilDate.read? s.toList
  let separator :: cs := cs | none
  if 127 < separator.toNat then none
  let (hour, cs) ← Text.takeDigits? 2 cs
  let ':' :: cs := cs | none
  let (minute, cs) ← Text.takeDigits? 2 cs
  let ':' :: cs := cs | none
  let (second, cs) ← Text.takeDigits? 2 cs
  let (nanosecond, cs) ← readFraction? cs
  let offset ← readOffset? cs
  ofReading? ⟨.ofCivil date, hour, minute, second, nanosecond⟩ offset

/-! ## The form used in messages -/

/-- `YYYY-MM-DD H:MM:SS.f ±HH:MM:SS`: the hour is not padded, there is at least one digit of the
fraction, and the offset always has a sign and seconds. -/
def display (t : DateTime) : String :=
  let c := t.clock
  let two := Text.paddedDigits 2
  let fraction := fractionDigits c.nanosecond
  let seconds := t.offset.natAbs
  String.ofList (c.date.civil.chars ++ ' ' :: Text.paddedDigits 1 c.hour ++ ':' :: two c.minute
    ++ ':' :: two c.second ++ '.' :: (if fraction.isEmpty then ['0'] else fraction)
    ++ ' ' :: signText t.offset :: two (seconds / 3600) ++ ':' :: two (seconds / 60 % 60)
    ++ ':' :: two (seconds % 60))

end DateTime

end ReportCalc
