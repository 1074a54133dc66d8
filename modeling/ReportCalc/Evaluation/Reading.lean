import ReportCalc.Evaluation.Context

/-!
# Reading values of cells

Rules get at the results of other cells through an `Access`. The one of evaluations computes the
value of an operation cell on demand and at most once in a pass (`executeCell`): a result with the
time of the pass settles the cell. A failure stays with the cell it belongs to, and a reader of that
cell only finds that the value is missing.
-/

namespace ReportCalc

variable {α : Type} {m : Type → Type}

/-- How a rule gets at the values of operands and at the results of other cells. -/
structure Access (m : Type → Type) where
  evaluate : Context → Operation → m Value
  execute : Context → Resolved → m ExecutionOutcome
  validate : Context → Resolved → m ValidationEvent
  check : Context → Resolved → m AvailabilityEvent

/-- The event of a cell in this pass: the one recorded already, or else the outcome that `compute`
gives, which is recorded. -/
def settle [Recording m] [PassContent α] (kind : LogKind α) (cx : Context) (target : Resolved)
    (compute : m α) : m (Event α) := do
  match ← cx.settled? ((← Recording.journal).log kind target.address) target.label with
  | some done => return done
  | none =>
    let outcome ← compute
    Recording.modifyJournal (·.push kind target.address ⟨cx.time, outcome⟩)
    return ⟨cx.time, outcome⟩

/-- The outcome of evaluating the operation of a cell; fatal errors are no outcomes. -/
def outcomeOf [Interruptible m] (x : m Value) : m ExecutionOutcome :=
  Eval.rescue (do return .succeeded (← x)) fun e => Eval.ofExcept e.classify

/-- The outcome of an operation cell in this pass, evaluating it first if it is not settled. -/
def executeCell [Recording m] (ev : Context → Operation → m Value) (cx : Context)
    (target : Resolved) : m ExecutionOutcome := do
  let cell ← target.operationCell
  let event ← settle .executions cx target (outcomeOf (ev (cx.enter target) cell.operation))
  return event.content

/-- The value of a success; any other outcome means that the value is missing. -/
def succeededValue (target : Resolved) : ExecutionOutcome → Except EvaluationError Value
  | .succeeded v => .ok v
  | outcome => .error (.valueMissing target.label outcome.display)

/-- The value of a constant or an input. Where a kind allows it, a missing input reads as the
absent value. -/
def storedValue (target : Resolved) (kind : Kind) : Except EvaluationError Value :=
  match target.cell with
  | .const c => .ok c.value
  | .input c =>
    match c.value with
    | some v => .ok v
    | none => if kind.isOptional then .ok .null else .error (.valueMissing target.label "no input")
  | _ => .error (target.mismatch "value")

def storedHasValue : Cell → Bool
  | .const c => !c.value.isNull
  | .input c => c.value.any (!·.isNull)
  | _ => false

/-- The value of the cell that a locator means, as a value of the kind. -/
def cellValue [Interruptible m] (access : Access m) (cx : Context) (locator : Locator)
    (kind : Kind) : m Value := do
  let target ← cx.resolve locator
  let value ← match target.cell with
    | .operation _ => do succeededValue target (← access.execute cx target)
    | _ => storedValue target kind
  kind.check value ("value of cell " ++ target.label)

/-- Whether the cell that a locator means has a value. -/
def hasValue [Interruptible m] (access : Access m) (cx : Context) (locator : Locator) :
    m Bool := do
  let target ← cx.resolve locator
  match target.cell with
  | .operation _ => return (← access.execute cx target).value?.any (!·.isNull)
  | cell => return storedHasValue cell

end ReportCalc
