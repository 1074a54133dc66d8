import ReportCalc.Json.Basic

/-!
# Reading JSON

A strict reader of JSON texts: blanks are the four of the standard, numbers have no leading zeros,
strings hold no control characters and no unpaired surrogates, and nothing but blanks follows the
value. Fields are returned as written, repeated names included, so that a caller can refuse them.
-/

namespace ReportCalc.Json

def skipBlanks (cs : List Char) : List Char :=
  cs.dropWhile fun c => c == ' ' || c == '\t' || c == '\n' || c == '\r'

def expect? (word : List Char) (cs : List Char) : Option (List Char) :=
  if word.isPrefixOf cs then some (cs.drop word.length) else none

/-! ## Numbers -/

def digits? (cs : List Char) : Option (List Char × List Char) :=
  match cs.takeWhile Char.isDigit with
  | [] => none
  | digits => some (digits, cs.dropWhile Char.isDigit)

/-- The digits before the point: one digit, or several of which the first is not a zero. -/
def wholeDigits? (cs : List Char) : Option (List Char × List Char) := do
  let (digits, rest) ← digits? cs
  if digits.head? == some '0' && digits.length != 1 then none
  some (digits, rest)

/-- The part of a number after its integer digits, as written; empty if there is none. -/
def numberTail? (cs : List Char) : Option (List Char × List Char) := do
  let (fraction, cs) ← match cs with
    | '.' :: rest => (digits? rest).map fun (digits, rest) => ('.' :: digits, rest)
    | rest => some ([], rest)
  let exponentDigits? (mark : List Char) (cs : List Char) :=
    (digits? cs).map fun (digits, rest) => (fraction ++ mark ++ digits, rest)
  match cs with
  | 'e' :: '+' :: rest | 'E' :: '+' :: rest => exponentDigits? ['e', '+'] rest
  | 'e' :: '-' :: rest | 'E' :: '-' :: rest => exponentDigits? ['e', '-'] rest
  | 'e' :: rest | 'E' :: rest => exponentDigits? ['e'] rest
  | rest => some (fraction, rest)

def digitsNumber (digits : List Char) : Nat :=
  digits.foldl (fun n c => 10 * n + (c.toNat - '0'.toNat)) 0

def number? (cs : List Char) : Option (Json × List Char) := do
  let (sign, cs) := match cs with
    | '-' :: rest => (['-'], rest)
    | rest => ([], rest)
  let (whole, cs) ← wholeDigits? cs
  let (tail, cs) ← numberTail? cs
  if tail.isEmpty then
    let magnitude : Int := digitsNumber whole
    some (.integer (if sign.isEmpty then magnitude else -magnitude), cs)
  else
    some (.real (String.ofList (sign ++ whole ++ tail)), cs)

/-! ## Strings -/

def hexDigit? (c : Char) : Option Nat :=
  if c.isDigit then some (c.toNat - '0'.toNat)
  else if 'a' ≤ c ∧ c ≤ 'f' then some (c.toNat - 'a'.toNat + 10)
  else if 'A' ≤ c ∧ c ≤ 'F' then some (c.toNat - 'A'.toNat + 10)
  else none

def hexUnit? : List Char → Option (Nat × List Char)
  | a :: b :: c :: d :: rest => do
    let a ← hexDigit? a
    let b ← hexDigit? b
    let c ← hexDigit? c
    let d ← hexDigit? d
    some (((a * 16 + b) * 16 + c) * 16 + d, rest)
  | _ => none

/-- Reads what follows `\u`: one unit, or a high surrogate and the low one that must follow it. -/
def unicodeEscape? (cs : List Char) : Option (Char × List Char) := do
  let (unit, cs) ← hexUnit? cs
  if 0xD800 ≤ unit && unit < 0xDC00 then
    let '\\' :: 'u' :: cs := cs | none
    let (low, cs) ← hexUnit? cs
    if low < 0xDC00 || 0xDFFF < low then none
    some (Char.ofNat (0x10000 + (unit - 0xD800) * 0x400 + (low - 0xDC00)), cs)
  else if 0xDC00 ≤ unit && unit < 0xE000 then none
  else some (Char.ofNat unit, cs)

def escape? : List Char → Option (Char × List Char)
  | '"' :: cs => some ('"', cs)
  | '\\' :: cs => some ('\\', cs)
  | '/' :: cs => some ('/', cs)
  | 'b' :: cs => some ('\x08', cs)
  | 'f' :: cs => some ('\x0c', cs)
  | 'n' :: cs => some ('\n', cs)
  | 'r' :: cs => some ('\r', cs)
  | 't' :: cs => some ('\t', cs)
  | 'u' :: cs => unicodeEscape? cs
  | _ => none

/-- Reads the rest of a string up to its closing quote. Every step uses up a character, so the
length of the text is fuel enough. -/
def stringTail? : Nat → List Char → Option (List Char × List Char)
  | 0, _ => none
  | fuel + 1, cs =>
    match cs with
    | [] => none
    | '"' :: rest => some ([], rest)
    | '\\' :: rest => do
      let (c, rest) ← escape? rest
      let (tail, rest) ← stringTail? fuel rest
      some (c :: tail, rest)
    | c :: rest => do
      if c.toNat < 32 then none
      let (tail, rest) ← stringTail? fuel rest
      some (c :: tail, rest)

/-! ## Values -/

mutual

def value? : Nat → List Char → Option (Json × List Char)
  | 0, _ => none
  | fuel + 1, cs =>
    match skipBlanks cs with
    | 'n' :: cs => (expect? "ull".toList cs).map (.null, ·)
    | 't' :: cs => (expect? "rue".toList cs).map (.bool true, ·)
    | 'f' :: cs => (expect? "alse".toList cs).map (.bool false, ·)
    | '"' :: cs => (stringTail? fuel cs).map fun (s, rest) => (.string (String.ofList s), rest)
    | '[' :: cs =>
      match skipBlanks cs with
      | ']' :: rest => some (.array [], rest)
      | _ => (items? fuel cs).map fun (items, rest) => (.array items, rest)
    | '\x7b' :: cs =>
      match skipBlanks cs with
      | '\x7d' :: rest => some (.object [], rest)
      | _ => (fields? fuel cs).map fun (fields, rest) => (.object fields, rest)
    | cs => number? cs

/-- Reads the items of an array and the bracket after them. -/
def items? : Nat → List Char → Option (List Json × List Char)
  | 0, _ => none
  | fuel + 1, cs => do
    let (item, cs) ← value? fuel cs
    match skipBlanks cs with
    | ',' :: cs => do
      let (items, cs) ← items? fuel cs
      some (item :: items, cs)
    | ']' :: cs => some ([item], cs)
    | _ => none

/-- Reads the fields of an object and the brace after them. -/
def fields? : Nat → List Char → Option (List (String × Json) × List Char)
  | 0, _ => none
  | fuel + 1, cs => do
    let '"' :: cs := skipBlanks cs | none
    let (name, cs) ← stringTail? fuel cs
    let ':' :: cs := skipBlanks cs | none
    let (value, cs) ← value? fuel cs
    let field := (String.ofList name, value)
    match skipBlanks cs with
    | ',' :: cs => do
      let (fields, cs) ← fields? fuel cs
      some (field :: fields, cs)
    | '\x7d' :: cs => some ([field], cs)
    | _ => none

end

/-- The tree of a JSON text, or `none` if the text is not JSON. -/
def ofText? (s : String) : Option Json :=
  let cs := s.toList
  match value? (2 * cs.length + 2) cs with
  | some (value, rest) => if (skipBlanks rest).isEmpty then some value else none
  | none => none

end ReportCalc.Json
