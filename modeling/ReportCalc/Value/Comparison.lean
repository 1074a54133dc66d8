import ReportCalc.Evaluation.Error

/-!
# Comparison of values

Integers and decimals compare by their exact numbers, dates and date-times by their order. Truth
values, texts, identifiers and the absent value only know equality; all other pairs do not compare.
-/

namespace ReportCalc.Value

def equalityOnly (equal : Bool) (typeName : String) : Comparison → Except EvaluationError Bool
  | .eq => .ok equal
  | .ne => .ok !equal
  | c => .error (.invalidOperation ("operator '" ++ c.symbol ++ "' not defined for " ++ typeName ++
      "; " ++ typeName ++ " supports only = and !="))

def compare (left right : Value) (c : Comparison) : Except EvaluationError Bool :=
  match left, right with
  | .null, _ | _, .null => equalityOnly (left.isNull && right.isNull) "Null" c
  | .int l, .int r => .ok (c.holds (Ord.compare l.toInt r.toInt))
  | .decimal l, .decimal r => .ok (c.holds (l.compare r))
  | .int l, .decimal r => .ok (c.holds ((Decimal.ofInt64 l).compare r))
  | .decimal l, .int r => .ok (c.holds (l.compare (Decimal.ofInt64 r)))
  | .date l, .date r => .ok (c.holds (l.compare r))
  | .dateTime l, .dateTime r => .ok (c.holds (l.compare r))
  | .bool l, .bool r => equalityOnly (l == r) "Bool" c
  | .text l, .text r => equalityOnly (l == r) "Text" c
  | .identifier l, .identifier r => equalityOnly (l == r) "Identifier" c
  | _, _ =>
    .error (.invalidOperation ("cannot compare " ++ left.typeName ++ " with " ++ right.typeName))

end ReportCalc.Value
