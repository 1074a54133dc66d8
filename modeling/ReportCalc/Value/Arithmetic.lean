import ReportCalc.Decimal.Arithmetic
import ReportCalc.Evaluation.Error

/-!
# Arithmetic on values

Two integers give an integer; as soon as one operand is a decimal the result is one. All
arithmetic is checked: leaving the range and dividing by zero are errors.
-/

namespace ReportCalc

/-- The four operations of arithmetic. -/
inductive Arithmetic where
  | add | subtract | multiply | divide
  deriving DecidableEq

namespace Arithmetic

def display : Arithmetic → String
  | .add => "addition"
  | .subtract => "subtraction"
  | .multiply => "multiplication"
  | .divide => "division"

/-- The exact result on integers; a quotient is cut off toward zero. -/
def exact : Arithmetic → Int → Int → Int
  | .add, l, r => l + r
  | .subtract, l, r => l - r
  | .multiply, l, r => l * r
  | .divide, l, r => Int.tdiv l r

/-- The 64-bit integer of this value, if there is one. -/
def int64? (i : Int) : Option Int64 :=
  if Int64.minValue.toInt ≤ i ∧ i ≤ Int64.maxValue.toInt then some (Int64.ofInt i) else none

def onInts (op : Arithmetic) (l r : Int64) : Except EvaluationError Int64 :=
  if op = .divide ∧ r = 0 then .error .divisionByZero
  else
    match int64? (op.exact l.toInt r.toInt) with
    | some i => .ok i
    | none => .error (.overflow ("integer " ++ op.display ++ " overflow"))

/-- The result on decimals, or `none` when it is out of range. -/
def onDecimals? : Arithmetic → Decimal → Decimal → Option Decimal
  | .add, l, r => l.add? r
  | .subtract, l, r => l.sub? r
  | .multiply, l, r => l.mul? r
  | .divide, l, r => l.div? r

def onDecimals (op : Arithmetic) (l r : Decimal) : Except EvaluationError Decimal :=
  if op = .divide ∧ r.isZero then .error .divisionByZero
  else
    match op.onDecimals? l r with
    | some d => .ok d
    | none => .error (.overflow ("decimal " ++ op.display ++ " overflow"))

def apply (op : Arithmetic) (left right : Value) : Except EvaluationError Value :=
  match left, right with
  | .int l, .int r => (op.onInts l r).map .int
  | .decimal l, .decimal r => (op.onDecimals l r).map .decimal
  | .int l, .decimal r => (op.onDecimals (.ofInt64 l) r).map .decimal
  | .decimal l, .int r => (op.onDecimals l (.ofInt64 r)).map .decimal
  | _, _ =>
    .error (.invalidOperation (op.display ++ " not defined for " ++ left.typeName ++ " and " ++
      right.typeName))

/-- An integer becomes a decimal when the declared kind asks for one. -/
def conform (value : Value) (kind : Kind) : Value :=
  match value, kind.scalar? with
  | .int i, some .decimal => .decimal (.ofInt64 i)
  | value, _ => value

/-- The number with which a fold over nothing begins. -/
def identity : Arithmetic → Int64
  | .multiply => 1
  | _ => 0

def foldFrom (op : Arithmetic) : Value → List Value → Except EvaluationError Value
  | acc, [] => .ok acc
  | acc, value :: rest => do foldFrom op (← op.apply acc value) rest

/-- Combines all operands that are not absent. With none left the result is absent for an optional
kind and the identity otherwise. -/
def fold (op : Arithmetic) (operands : List Value) (kind : Kind) : Except EvaluationError Value :=
  match operands.filter (!·.isNull) with
  | [] => .ok (if kind.isOptional then .null else conform (.int op.identity) kind)
  | first :: rest => do return conform (← op.foldFrom first rest) kind

/-- Combines two operands, of which an absent one makes the result absent. -/
def binary (op : Arithmetic) (left right : Value) (kind : Kind) : Except EvaluationError Value :=
  if left.isNull || right.isNull then .ok .null
  else do return conform (← op.apply left right) kind

end Arithmetic

end ReportCalc
