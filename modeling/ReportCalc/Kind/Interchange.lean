import ReportCalc.Kind
import ReportCalc.Json.Basic

/-!
# The JSON form of kinds

A kind without a parameter is its name, or an object with that name and `null`; a kind with a
parameter is an object with one field. Names are exact.
-/

namespace ReportCalc

/-- A tag with the value it carries, if any: a bare name, or an object with exactly one field. -/
def Json.tagged? : Json → Option (String × Option Json)
  | .string name => some (name, none)
  | .object [(name, value)] => some (name, some value)
  | _ => none

/-- Whether a tag carries nothing: there is no value, or it is `null`. -/
def Json.isBare : Option Json → Bool
  | none | some .null => true
  | some _ => false

namespace Scalar

def tag : Scalar → String
  | .bool => "bool"
  | .int => "int"
  | .decimal => "decimal"
  | .text => "text"
  | .date => "date"
  | .dateTime => "date_time"
  | .identifier => "identifier"

def ofJson? (j : Json) : Option Scalar := do
  let (name, value) ← j.tagged?
  if Json.isBare value then Scalar.all.find? (·.tag == name) else none

theorem ofJson?_tag (s : Scalar) : ofJson? (.string s.tag) = some s := by cases s <;> decide

end Scalar

namespace Kind

def toJson : Kind → Json
  | .scalar s => .object [("scalar", .string s.tag)]
  | .optional s => .object [("optional", .string s.tag)]
  | .namedList s => .object [("named_list", .string s.tag)]
  | .boolWithMessage => .string "bool_with_message"
  | .validity => .string "validity"
  | .availability => .string "availability"
  | .custom name => .object [("custom", .string name)]

def ofJson? (j : Json) : Option Kind := do
  match ← j.tagged? with
  | ("scalar", some value) => (Scalar.ofJson? value).map .scalar
  | ("optional", some value) => (Scalar.ofJson? value).map .optional
  | ("named_list", some value) => (Scalar.ofJson? value).map .namedList
  | ("custom", some (.string name)) => some (.custom name)
  | ("bool_with_message", value) => if Json.isBare value then some .boolWithMessage else none
  | ("validity", value) => if Json.isBare value then some .validity else none
  | ("availability", value) => if Json.isBare value then some .availability else none
  | _ => none

theorem ofJson?_toJson (k : Kind) : ofJson? k.toJson = some k := by
  cases k with
  | scalar s | optional s | namedList s => cases s <;> rfl
  | _ => rfl

end Kind

end ReportCalc
