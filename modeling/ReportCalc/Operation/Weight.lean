import ReportCalc.Cell.Basic

/-!
# The weight of operations

The number of nodes of an operation, chains included. Evaluations nest at most as deep as there are
nodes in the cells that take part, as long as no cell depends on itself.
-/

namespace ReportCalc

namespace Operation

mutual

def weight : Operation → Nat
  | .const .. | .cellValue .. | .hasValue _ | .validity _ | .availability _ | .abort ..
  | .notApplicable .. => 1
  | .ifThenElse c t e _ => weight c + weight t + weight e + 1
  | .andAlso xs | .orElse xs => weightOfList xs + 1
  | .not a => weight a + 1
  | .compare a _ b | .subtract a b _ | .divide a b _ => weight a + weight b + 1
  | .sum xs _ | .multiply xs _ | .custom _ _ xs _ => weightOfList xs + 1
  | .withMessage c m => weight c + weightOfOption m + 1
  | .validate ⟨first, rest, _, message⟩ =>
    weightOfStep first + weightOfSteps rest + weightOfOption message + 1
  | .checkAvailability ⟨first, rest, _⟩ => weightOfCheck first + weightOfChecks rest + 1

def weightOfList : List Operation → Nat
  | [] => 0
  | a :: rest => weight a + weightOfList rest

/-- The number of nodes of an operation that may be missing. -/
def weightOfOption : Option Operation → Nat
  | none => 0
  | some a => weight a

def weightOfAction : ValidationAction Operation → Nat
  | .next => 0
  | .stop _ message => weightOfOption message

def weightOfStep : ValidationStep Operation → Nat
  | .check c t e | .checkWithMessage c t e => weight c + weightOfAction t + weightOfAction e

def weightOfSteps : List (ValidationStep Operation) → Nat
  | [] => 0
  | s :: rest => weightOfStep s + weightOfSteps rest

def weightOfCheck : AvailabilityStep Operation → Nat
  | ⟨c, _, _⟩ => weight c

def weightOfChecks : List (AvailabilityStep Operation) → Nat
  | [] => 0
  | s :: rest => weightOfCheck s + weightOfChecks rest

end

end Operation

/-- The number of nodes of a chain, counted as an operation. -/
def CellRules.weight (rules : CellRules) : Nat :=
  rules.validation.elim 0 (fun chain => (Operation.validate chain).weight) +
    rules.availability.elim 0 (fun chain => (Operation.checkAvailability chain).weight)

/-- The number of nodes of a cell's operation and chains. -/
def Cell.weight (cell : Cell) : Nat :=
  cell.operation?.elim 0 (·.operation.weight) + cell.rules?.elim 0 (·.weight)

end ReportCalc
