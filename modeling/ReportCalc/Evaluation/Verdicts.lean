import ReportCalc.Evaluation.Reading
import ReportCalc.Evaluation.Rules

/-!
# Verdicts on cells

The chains of a cell run on demand and at most once in a pass, like its operation. A cell without a
chain is valid, or enabled, and nothing is recorded for it.
-/

namespace ReportCalc

variable {m : Type → Type}

def validationOutcome [Interruptible m] (ev : Operation → m Value) (chain : ValidationRule) :
    m ValidationOutcome :=
  Eval.completedOr .completed .failed (validateChain ev chain)

def availabilityOutcome [Interruptible m] (ev : Operation → m Value) (chain : AvailabilityRule) :
    m AvailabilityOutcome :=
  Eval.completedOr .completed .failed (checkChain ev chain)

/-- The validation event of a cell in this pass, running its chain first if it is not settled. -/
def validateCell [Recording m] (ev : Context → Operation → m Value) (cx : Context)
    (target : Resolved) : m ValidationEvent := do
  match (← target.rules).validation with
  | none => return ⟨cx.time, .completed ⟨.valid, none⟩⟩
  | some chain => settle .validations cx target (validationOutcome (ev (cx.enter target)) chain)

/-- The availability event of a cell in this pass, running its chain first if it is not settled. -/
def checkCell [Recording m] (ev : Context → Operation → m Value) (cx : Context)
    (target : Resolved) : m AvailabilityEvent := do
  match (← target.rules).availability with
  | none => return ⟨cx.time, .completed .enabled⟩
  | some chain =>
    settle .availabilities cx target (availabilityOutcome (ev (cx.enter target)) chain)

/-- Access to results that are recorded in the journal, and computed once in a pass. -/
def Access.recorded [Recording m] (ev : Context → Operation → m Value) : Access m where
  evaluate := ev
  execute := executeCell ev
  validate := validateCell ev
  check := checkCell ev

def validityOf [Interruptible m] (access : Access m) (cx : Context) (locator : Locator) :
    m Validity := do
  let target ← cx.resolve locator
  match (← access.validate cx target).content with
  | .completed v => return v
  | .failed reason | .cleared reason => Eval.fail (.noVerdict target.label reason)

def availabilityOf [Interruptible m] (access : Access m) (cx : Context) (locator : Locator) :
    m Availability := do
  let target ← cx.resolve locator
  match (← access.check cx target).content with
  | .completed a => return a
  | .failed reason | .cleared reason => Eval.fail (.noVerdict target.label reason)

end ReportCalc
