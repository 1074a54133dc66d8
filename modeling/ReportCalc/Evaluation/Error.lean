import ReportCalc.Event
import ReportCalc.Operation.Basic

/-!
# Evaluation errors

Most errors end up as an outcome of the cell that was being evaluated (`EvaluationError.classify`).
The fatal ones are mistakes in the report's structure or in a call; they are never recorded and end
the whole call.
-/

namespace ReportCalc

/-- The phases of a pass, in the order in which they run. -/
inductive Phase where
  | execution | validation | availability
  deriving DecidableEq

namespace Phase

def all : List Phase := [.execution, .validation, .availability]

def display : Phase → String
  | .execution => "CellOpExecution"
  | .validation => "Validation"
  | .availability => "AvailabilityCheck"

end Phase

/-- The causes for which an evaluation or a call fails. -/
inductive EvaluationError where
  | sectionNotFound (sectionId : String)
  | cellNotFound (sectionId cell : String)
  | notSlotted (cell slot : String)
  | slotNotFound (cell slot : String)
  | slotIdRequired (cell : String)
  | cellKindMismatch (cell expected actual : String)
  | aborted (message : Option String)
  | notApplicable (message : Option String)
  | valueMissing (cell reason : String)
  | noVerdict (cell reason : String)
  | typeMismatch (expected : Kind) (actual context : String)
  | divisionByZero
  | overflow (message : String)
  | invalidOperation (message : String)
  | construction (cause : ConstructionError)
  | host (message : String)
  | protocolNotFound (tag : OperationTag) (result : Kind)
  | wrongPhase (operation : OperationTag) (phase : Phase) (required : String)
  | noCurrentCell (locator : String)
  | timestampMismatch (cell : String) (expected found : DateTime)
  | nonUtcTimestamp (time : DateTime)
  | rerunLimitExceeded (maxPasses : Nat)
  | config (message : String)

namespace EvaluationError

def message : EvaluationError → String
  | .sectionNotFound s => "section not found: " ++ s
  | .cellNotFound s cell => "cell not found: " ++ s ++ "/" ++ cell
  | .notSlotted cell slot => "cell " ++ cell ++ " is not slotted, cannot select slot " ++ slot
  | .slotNotFound cell slot => "slot not found: " ++ cell ++ "[" ++ slot ++ "]"
  | .slotIdRequired cell => "cell " ++ cell ++ " is slotted and no slot id was given"
  | .cellKindMismatch cell expected actual =>
    "cell " ++ cell ++ " is a " ++ actual ++ " cell, expected " ++ expected
  | .aborted m => ExecutionOutcome.signalText "aborted" m
  | .notApplicable m => ExecutionOutcome.signalText "not applicable" m
  | .valueMissing cell reason => "cell " ++ cell ++ " has no value: " ++ reason
  | .noVerdict cell reason => "cell " ++ cell ++ " has no verdict: " ++ reason
  | .typeMismatch expected actual context =>
    context ++ ": expected " ++ expected.display ++ ", got " ++ actual
  | .divisionByZero => "division by zero"
  | .overflow m => "arithmetic overflow: " ++ m
  | .invalidOperation m => "invalid operation: " ++ m
  | .construction cause => cause.message
  | .host m => m
  | .protocolNotFound tag result =>
    "no protocol registered for " ++ tag.display ++ " producing " ++ result.display
  | .wrongPhase operation phase required =>
    operation.display ++ " is not allowed during " ++ phase.display ++ ", requires " ++ required
  | .noCurrentCell locator =>
    "locator " ++ locator ++ " is relative but no cell is being evaluated"
  | .timestampMismatch cell expected found =>
    "cell " ++ cell ++ " has an outcome recorded at " ++ found.display ++ ", current pass is " ++
      expected.display
  | .nonUtcTimestamp time => "timestamp " ++ time.display ++ " is not UTC"
  | .rerunLimitExceeded maxPasses =>
    "recalculation still wants to rerun after " ++ countText maxPasses ++ " passes"
  | .config m => "invalid configuration: " ++ m

/-- Whether the error ends the whole call and is never recorded as an outcome. -/
def isFatal : EvaluationError → Bool
  | .protocolNotFound .. | .wrongPhase .. | .noCurrentCell _ | .timestampMismatch ..
  | .nonUtcTimestamp _ | .rerunLimitExceeded _ | .config _ => true
  | _ => false

/-- The outcome with which an error is recorded on the cell that was being executed; a fatal error
is handed back unchanged. -/
def classify (e : EvaluationError) : Except EvaluationError ExecutionOutcome :=
  if e.isFatal then .error e
  else .ok <|
    match e with
    | .aborted m => .aborted m
    | .notApplicable m => .notApplicable m
    | .cellNotFound .. | .sectionNotFound _ | .slotNotFound .. => .cellNotFound e.message
    | .valueMissing .. => .valueMissing e.message
    | _ => .failed e.message

end EvaluationError

end ReportCalc
