import ReportCalc.Value.Basic

/-!
# Typed values

Each scalar stands for a Lean type (`Scalar.Carrier`), and so do its optional and its named-list
kind (`TypedKind.Carrier`). `TypedKind.toValue` and `TypedKind.ofValue?` pass between these types
and `Value`.
-/

namespace ReportCalc

/-- An opaque identifier, such as the key of a record kept elsewhere. -/
structure Identifier where
  key : String
  deriving DecidableEq

abbrev Scalar.Carrier : Scalar → Type
  | .bool => Bool
  | .int => Int64
  | .decimal => Decimal
  | .text => String
  | .date => Date
  | .dateTime => DateTime
  | .identifier => Identifier

/-- The value of a scalar's type as a runtime value. -/
def Scalar.toValue : (s : Scalar) → s.Carrier → Value
  | .bool, b => .bool b
  | .int, i => .int i
  | .decimal, d => .decimal d
  | .text, s => .text s
  | .date, d => .date d
  | .dateTime, t => .dateTime t
  | .identifier, i => .identifier i.key

/-- The runtime value in a scalar's type, if it is one of that scalar. -/
def Scalar.ofValue? : (s : Scalar) → Value → Option s.Carrier
  | .bool, .bool b => some b
  | .int, .int i => some i
  | .decimal, .decimal d => some d
  | .text, .text s => some s
  | .date, .date d => some d
  | .dateTime, .dateTime t => some t
  | .identifier, .identifier s => some ⟨s⟩
  | _, _ => none

/-- A kind whose values form a Lean type. -/
inductive TypedKind where
  | plain (s : Scalar)
  | optional (s : Scalar)
  | namedList (s : Scalar)
  deriving DecidableEq

namespace TypedKind

/-- All typed kinds: for each scalar the plain, the optional and the list kind. -/
def all : List TypedKind := Scalar.all.flatMap fun s => [.plain s, .optional s, .namedList s]

def kind : TypedKind → Kind
  | .plain s => .scalar s
  | .optional s => .optional s
  | .namedList s => .namedList s

/-- The typed kind of a kind, if it has one. -/
def ofKind? : Kind → Option TypedKind
  | .scalar s => some (.plain s)
  | .optional s => some (.optional s)
  | .namedList s => some (.namedList s)
  | _ => none

abbrev Carrier : TypedKind → Type
  | .plain s => s.Carrier
  | .optional s => Option s.Carrier
  | .namedList s => List (Named s.Carrier)

def toValue : (k : TypedKind) → k.Carrier → Value
  | .plain s, x => s.toValue x
  | .optional s, x => x.elim .null s.toValue
  | .namedList s, items => .namedList (items.map fun item => ⟨item.name, s.toValue item.value⟩)

/-- The entries of a list in a scalar's type, if all of them are of that scalar. -/
def ofItems? (s : Scalar) : List (Named Value) → Option (List (Named s.Carrier))
  | [] => some []
  | ⟨name, value⟩ :: rest => do
    let value ← s.ofValue? value
    let rest ← ofItems? s rest
    some (⟨name, value⟩ :: rest)

/-- A runtime value in the kind's type, if it is of that kind. -/
def ofValue? : (k : TypedKind) → Value → Option k.Carrier
  | .plain s, v => s.ofValue? v
  | .optional s, v => if v.isNull then some none else (s.ofValue? v).map some
  | .namedList s, .namedList items => ofItems? s items
  | .namedList _, _ => none

end TypedKind

end ReportCalc
