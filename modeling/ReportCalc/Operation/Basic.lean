import ReportCalc.Locator
import ReportCalc.Rule
import ReportCalc.Value.Typed

/-!
# Operations

An operation is an immutable tree that describes a computation. Every node declares the kind of its
result, and its tag says which protocol evaluates it; `Operation.custom` carries the operations
that a host defines.
-/

namespace ReportCalc

/-- The comparisons of two values. -/
inductive Comparison where
  | eq | ne | lt | le | gt | ge
  deriving DecidableEq

namespace Comparison

def all : List Comparison := [.eq, .ne, .lt, .le, .gt, .ge]

def symbol : Comparison → String
  | .eq => "="
  | .ne => "!="
  | .lt => "<"
  | .le => "<="
  | .gt => ">"
  | .ge => ">="

def holds : Comparison → Ordering → Bool
  | .eq, o => o == .eq
  | .ne, o => o != .eq
  | .lt, o => o == .lt
  | .le, o => o != .gt
  | .gt, o => o == .gt
  | .ge, o => o != .lt

end Comparison

/-- What kind of node an operation is. -/
inductive OperationTag where
  | const | cellValue | hasValue | ifThenElse | andAlso | orElse | not | compare
  | sum | subtract | multiply | divide | withMessage | validate | checkAvailability
  | validity | availability | abort | notApplicable
  | custom (name : String)
  deriving DecidableEq

namespace OperationTag

/-- The tags of the operations that are not a host's. -/
def builtin : List OperationTag :=
  [.const, .cellValue, .hasValue, .ifThenElse, .andAlso, .orElse, .not, .compare, .sum, .subtract,
    .multiply, .divide, .withMessage, .validate, .checkAvailability, .validity, .availability,
    .abort, .notApplicable]

/-- The name of a tag that is not a host's, and a host's own name for the others. -/
def name : OperationTag → String
  | .const => "GetConst"
  | .cellValue => "GetCellValue"
  | .hasValue => "HasCellValue"
  | .ifThenElse => "IfThenElse"
  | .andAlso => "AndAlso"
  | .orElse => "OrElse"
  | .not => "Not"
  | .compare => "Compare"
  | .sum => "Sum"
  | .subtract => "Subtract"
  | .multiply => "Multiply"
  | .divide => "Divide"
  | .withMessage => "WithMessage"
  | .validate => "Validate"
  | .checkAvailability => "CheckAvailability"
  | .validity => "GetValidity"
  | .availability => "GetAvailability"
  | .abort => "Abort"
  | .notApplicable => "DeemNotApplicable"
  | .custom name => name

def display : OperationTag → String
  | .custom name => "Custom(" ++ name ++ ")"
  | tag => tag.name

end OperationTag

/-- A computation. `abort` and `notApplicable` end the evaluation of the cell without an answer;
the result of `custom` is whatever the host's protocol makes of the arguments and the payload. -/
inductive Operation where
  | const (value : Value) (kind : Kind)
  | cellValue (locator : Locator) (kind : Kind)
  | hasValue (locator : Locator)
  | ifThenElse (condition whenTrue whenFalse : Operation) (kind : Kind)
  | andAlso (operands : List Operation)
  | orElse (operands : List Operation)
  | not (operand : Operation)
  | compare (left : Operation) (comparison : Comparison) (right : Operation)
  | sum (operands : List Operation) (kind : Kind)
  | subtract (minuend subtrahend : Operation) (kind : Kind)
  | multiply (operands : List Operation) (kind : Kind)
  | divide (numerator denominator : Operation) (kind : Kind)
  | withMessage (condition : Operation) (message : Option Operation)
  | validate (chain : ValidationChain Operation)
  | checkAvailability (chain : AvailabilityChain Operation)
  | validity (locator : Locator)
  | availability (locator : Locator)
  | abort (message : Option String) (kind : Kind)
  | notApplicable (message : Option String) (kind : Kind)
  | custom (name : String) (result : Kind) (args : List Operation) (payload : Json)

namespace Operation

def tag : Operation → OperationTag
  | .const .. => .const
  | .cellValue .. => .cellValue
  | .hasValue .. => .hasValue
  | .ifThenElse .. => .ifThenElse
  | .andAlso .. => .andAlso
  | .orElse .. => .orElse
  | .not .. => .not
  | .compare .. => .compare
  | .sum .. => .sum
  | .subtract .. => .subtract
  | .multiply .. => .multiply
  | .divide .. => .divide
  | .withMessage .. => .withMessage
  | .validate .. => .validate
  | .checkAvailability .. => .checkAvailability
  | .validity .. => .validity
  | .availability .. => .availability
  | .abort .. => .abort
  | .notApplicable .. => .notApplicable
  | .custom name .. => .custom name

def kind : Operation → Kind
  | .const _ kind | .cellValue _ kind | .ifThenElse _ _ _ kind | .sum _ kind | .subtract _ _ kind
  | .multiply _ kind | .divide _ _ kind | .abort _ kind | .notApplicable _ kind => kind
  | .hasValue _ | .andAlso _ | .orElse _ | .not _ | .compare .. => .bool
  | .withMessage .. => .boolWithMessage
  | .validate _ | .validity _ => .validity
  | .checkAvailability _ | .availability _ => .availability
  | .custom _ result _ _ => result

/-! ## Constructors that supply the kind -/

def constant (k : TypedKind) (x : k.Carrier) : Operation := .const (k.toValue x) k.kind

/-- A choice, which has the kind of its first branch. -/
def choose (condition whenTrue whenFalse : Operation) : Operation :=
  .ifThenElse condition whenTrue whenFalse whenTrue.kind

def difference (minuend subtrahend : Operation) : Operation :=
  .subtract minuend subtrahend minuend.kind

def quotient (numerator denominator : Operation) : Operation :=
  .divide numerator denominator numerator.kind

end Operation

/-- What finds the protocol of an operation: the tag and the kind of the result. -/
structure ProtocolKey where
  tag : OperationTag
  result : Kind
  deriving DecidableEq

namespace ProtocolKey

def of (op : Operation) : ProtocolKey := ⟨op.tag, op.kind⟩

def display (key : ProtocolKey) : String := key.tag.display ++ " -> " ++ key.result.display

end ProtocolKey

end ReportCalc
