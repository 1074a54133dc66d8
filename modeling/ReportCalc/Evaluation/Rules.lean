import ReportCalc.Evaluation.Context

/-!
# Running rule chains

The first step whose action is a stop decides; if every step goes on, the end of the chain does. In
a validation chain an abort or a not-applicable signal, wherever it is raised, becomes the verdict
of that name without a message. Every other error, and every error of an availability chain, is
returned.
-/

namespace ReportCalc

variable {m : Type → Type} [Interruptible m]

def expectBool (v : Value) (context : String) : Except EvaluationError Bool :=
  match v with
  | .bool b => .ok b
  | v => .error (.typeMismatch .bool v.typeName context)

/-- The text that is expected here; an absent value is no text. -/
def expectText (v : Value) (context : String) : Except EvaluationError (Option String) :=
  match v with
  | .text s => .ok (some s)
  | .null => .ok none
  | v => .error (.typeMismatch (.optional .text) v.typeName context)

/-- The action that a validation step takes when its condition has a value, and the message that
the condition brought along. -/
def ValidationStep.decide (step : ValidationStep Operation) (v : Value) :
    Except EvaluationError (ValidationAction Operation × Option String) :=
  match step with
  | .check .. => do return (step.action (← expectBool v "validation condition"), none)
  | .checkWithMessage .. =>
    match v with
    | .boolWithMessage holds message => .ok (step.action holds, message)
    | v => .error (.typeMismatch .boolWithMessage v.typeName "validation condition")

/-- The text of a message operation, or the fallback without one. -/
def messageText (ev : Operation → m Value) (message : Option Operation)
    (fallback : Option String) : m (Option String) :=
  match message with
  | some op => do expectText (← ev op) "validation message"
  | none => return fallback

/-- Runs validation steps up to the first stop, or to the end. -/
def runValidation (ev : Operation → m Value) (atEnd : m Validity) :
    List (ValidationStep Operation) → m Validity
  | [] => atEnd
  | step :: rest => do
    match ← step.decide (← ev step.condition) with
    | (.next, _) => runValidation ev atEnd rest
    | (.stop verdict message, fallback) => return ⟨verdict, ← messageText ev message fallback⟩

/-- The verdict that a signal becomes. -/
def signalVerdict : EvaluationError → m Validity
  | .aborted _ => return ⟨.aborted, none⟩
  | .notApplicable _ => return ⟨.notApplicable, none⟩
  | e => Eval.fail e

/-- Runs a validation chain for the cell that is current. -/
def validateChain (ev : Operation → m Value) (chain : ValidationRule) : m Validity :=
  let atEnd := do return ⟨chain.endVerdict, ← messageText ev chain.endMessage none⟩
  Eval.rescue (runValidation ev atEnd chain.steps) signalVerdict

/-- Runs availability steps up to the first stop, or to the end. -/
def runAvailability (ev : Operation → m Value) (atEnd : Availability) :
    List (AvailabilityStep Operation) → m Availability
  | [] => return atEnd
  | step :: rest => do
    match step.action (← expectBool (← ev step.condition) "availability condition") with
    | .next => runAvailability ev atEnd rest
    | .stop availability => return availability

/-- Runs an availability chain for the cell that is current. -/
def checkChain (ev : Operation → m Value) (chain : AvailabilityRule) : m Availability :=
  runAvailability ev chain.endVerdict chain.steps

end ReportCalc
