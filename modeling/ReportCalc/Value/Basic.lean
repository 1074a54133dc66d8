import ReportCalc.Calendar.DateTime
import ReportCalc.Decimal.Text
import ReportCalc.Json.Basic
import ReportCalc.Kind
import ReportCalc.Verdict

/-!
# Values

The values that cells hold and operations produce, which of them a kind admits, and their text.
`null` is the absent value of an optional kind.
-/

namespace ReportCalc

/-- A named entry of a list. -/
structure Named (α : Type) where
  name : String
  value : α
  deriving DecidableEq

/-- A runtime value. -/
inductive Value where
  | bool (b : Bool)
  | int (i : Int64)
  | decimal (d : Decimal)
  | text (s : String)
  | date (d : Date)
  | dateTime (t : DateTime)
  | identifier (s : String)
  | null
  | namedList (items : List (Named Value))
  | boolWithMessage (value : Bool) (message : Option String)
  | validity (v : Validity)
  | availability (a : Availability)
  | custom (typeName : String) (payload : Json)

namespace Value

/-! ## Equality -/

mutual

/-- Equality of values: decimals by number, date-times by instant, all else by parts. -/
def beq : Value → Value → Bool
  | .bool a, .bool b => a == b
  | .int a, .int b => a == b
  | .decimal a, .decimal b => a == b
  | .text a, .text b => a == b
  | .date a, .date b => a == b
  | .dateTime a, .dateTime b => a == b
  | .identifier a, .identifier b => a == b
  | .null, .null => true
  | .namedList as, .namedList bs => beqItems as bs
  | .boolWithMessage a m, .boolWithMessage b n => a == b && m == n
  | .validity a, .validity b => a == b
  | .availability a, .availability b => a == b
  | .custom s a, .custom t b => s == t && a == b
  | _, _ => false

/-- Equality of named lists, entry by entry. -/
def beqItems : List (Named Value) → List (Named Value) → Bool
  | [], [] => true
  | ⟨m, a⟩ :: as, ⟨n, b⟩ :: bs => m == n && beq a b && beqItems as bs
  | _, _ => false

end

instance : BEq Value := ⟨beq⟩

/-! ## Kinds -/

def scalar? : Value → Option Scalar
  | .bool _ => some .bool
  | .int _ => some .int
  | .decimal _ => some .decimal
  | .text _ => some .text
  | .date _ => some .date
  | .dateTime _ => some .dateTime
  | .identifier _ => some .identifier
  | _ => none

def isNull : Value → Bool
  | .null => true
  | _ => false

theorem isNull_iff {v : Value} : v.isNull = true ↔ v = .null := by
  cases v <;> simp [isNull]

def bool? : Value → Option Bool
  | .bool b => some b
  | _ => none

def text? : Value → Option String
  | .text s => some s
  | _ => none

def typeName : Value → String
  | .bool _ => Scalar.bool.display
  | .int _ => Scalar.int.display
  | .decimal _ => Scalar.decimal.display
  | .text _ => Scalar.text.display
  | .date _ => Scalar.date.display
  | .dateTime _ => Scalar.dateTime.display
  | .identifier _ => Scalar.identifier.display
  | .null => "Null"
  | .namedList _ => "NamedList"
  | .boolWithMessage .. => "BoolWithMessage"
  | .validity _ => "Validity"
  | .availability _ => "Availability"
  | .custom typeName _ => "Custom<" ++ typeName ++ ">"

end Value

/-- Whether the value is a legal value of the kind. -/
def Kind.admits : Kind → Value → Bool
  | .scalar s, v => v.scalar? == some s
  | .optional s, v => v.isNull || v.scalar? == some s
  | .namedList s, .namedList items => items.all (·.value.scalar? == some s)
  | .boolWithMessage, .boolWithMessage .. => true
  | .validity, .validity _ => true
  | .availability, .availability _ => true
  | .custom name, .custom typeName _ => typeName == name
  | _, _ => false

namespace Value

/-! ## Text -/

mutual

def display : Value → String
  | .bool b => if b then "true" else "false"
  | .int i => String.ofList ((if i.toInt < 0 then ['-'] else []) ++ Nat.toDigits 10 i.toInt.natAbs)
  | .decimal d => d.display
  | .text s | .identifier s => s
  | .date d => d.display
  | .dateTime t => t.display
  | .null => "null"
  | .namedList items => "[" ++ displayItems items ++ "]"
  | .boolWithMessage b message =>
    let flag := if b then "true" else "false"
    match message with
    | some m => flag ++ " (" ++ m ++ ")"
    | none => flag
  | .validity v => v.display
  | .availability a => a.display
  | .custom typeName payload => typeName ++ "(" ++ payload.compact ++ ")"

/-- The entries of a named list, each as `name: value`. -/
def displayItems : List (Named Value) → String
  | [] => ""
  | [⟨name, value⟩] => name ++ ": " ++ display value
  | ⟨name, value⟩ :: rest => name ++ ": " ++ display value ++ ", " ++ displayItems rest

end

end Value

end ReportCalc
