/-!
# Value kinds

Every operation declares the kind of value it produces and every input cell the kind it accepts.
Kinds are a small closed set over seven scalars; a host's own kinds are `Kind.custom` with a name.
-/

namespace ReportCalc

/-- The scalars that composite kinds are made of. -/
inductive Scalar where
  | bool | int | decimal | text | date | dateTime | identifier
  deriving DecidableEq

namespace Scalar

/-- All scalars, in the order in which they are listed. -/
def all : List Scalar := [.bool, .int, .decimal, .text, .date, .dateTime, .identifier]

theorem mem_all (s : Scalar) : s ∈ all := by cases s <;> decide

def display : Scalar → String
  | .bool => "Bool"
  | .int => "Int"
  | .decimal => "Decimal"
  | .text => "Text"
  | .date => "Date"
  | .dateTime => "DateTime"
  | .identifier => "Identifier"

/-- Whether values of the scalar take part in arithmetic. -/
def isNumeric : Scalar → Bool
  | .int | .decimal => true
  | _ => false

end Scalar

/-- The static result type of an operation, or the declared type of an input cell. -/
inductive Kind where
  | scalar (s : Scalar)
  | optional (s : Scalar)
  | namedList (s : Scalar)
  | boolWithMessage
  | validity
  | availability
  | custom (name : String)
  deriving DecidableEq

namespace Kind

abbrev bool : Kind := .scalar .bool

/-- The kinds that are supported unless more are asked for: every scalar with its optional and its
named-list variant, and the kinds that rule chains produce. -/
def standard : List Kind :=
  Scalar.all.flatMap (fun s => [.scalar s, .optional s, .namedList s]) ++
    [.boolWithMessage, .validity, .availability]

def scalar? : Kind → Option Scalar
  | .scalar s | .optional s => some s
  | _ => none

/-- Whether an absent value is legal. -/
def isOptional : Kind → Bool
  | .optional _ => true
  | _ => false

/-- Whether this is a number, plain or optional. -/
def isNumeric (k : Kind) : Bool := k.scalar?.any Scalar.isNumeric

def display : Kind → String
  | .scalar s => s.display
  | .optional s => s.display ++ "?"
  | .namedList s => "NamedList<" ++ s.display ++ ">"
  | .boolWithMessage => "BoolWithMessage"
  | .validity => "Validity"
  | .availability => "Availability"
  | .custom name => "Custom<" ++ name ++ ">"

end Kind

end ReportCalc
