import ReportCalc.Config
import ReportCalc.Evaluation.Context

/-!
# Agents

An agent owns a report with its journal. It sets inputs (`Agent.setInput`) and answers what the
last recalculation recorded; none of the reads evaluates anything.
-/

namespace ReportCalc

/-- A report with its index, its settings and what has been recorded on it. -/
structure Agent where
  report : Report
  index : ReportIndex
  config : Config
  journal : Journal

def DateTime.ensureUtc (time : DateTime) : Except EvaluationError Unit :=
  if time.isUtc then .ok () else .error (.nonUtcTimestamp time)

namespace Agent

/-- The agent of a report on which nothing has been recorded. -/
def ofReport (report : Report) (config : Config) : Agent :=
  ⟨report, .build report, config, .empty⟩

/-- Whether two agents have equal reports with equal logs. -/
def sameRecord (a b : Agent) : Bool :=
  a.report == b.report &&
    a.report.cells.all fun (address, cell) => a.journal.sameOn b.journal address cell

/-- The cell that an absolute locator means, with its address. -/
def resolve (agent : Agent) (locator : Locator) : Except EvaluationError Resolved :=
  agent.index.resolve agent.report locator none

/-! ## Inputs -/

/-- The error of a value that the cell's kind does not admit, as an evaluation error. -/
def liftConstruction {α : Type} : Except ConstructionError α → Except EvaluationError α
  | .ok a => .ok a
  | .error e => .error (.construction e)

/-- Sets the value of an input cell, or with `none` unsets it. -/
def setInput (agent : Agent) (locator : Locator) (value : Option Value) (time : DateTime) :
    Except EvaluationError Agent := do
  time.ensureUtc
  let a ← agent.index.locate agent.report locator none
  let some focus := agent.report.focus? a
    | throw (.cellNotFound (agent.report.sectionId a.row.sectionIndex) locator.display)
  match focus.part with
  | .input c => do
    let c ← liftConstruction (c.setValue value time)
    return { agent with report := focus.replace (.input c) }
  | cell => throw (Resolved.mismatch ⟨a, cell⟩ "input")

def setTypedInput (agent : Agent) (kind : TypedKind) (locator : Locator)
    (value : Option kind.Carrier) (time : DateTime) : Except EvaluationError Agent :=
  agent.setInput locator (value.map kind.toValue) time

/-! ## Reads -/

/-- The stored value of a constant or an input, or the value of an operation cell's last successful
execution. -/
def cellValue (agent : Agent) (locator : Locator) : Except EvaluationError (Option Value) := do
  let target ← agent.resolve locator
  match target.cell with
  | .const c => return some c.value
  | .input c => return c.value
  | .operation _ => return (agent.journal.lastOutcome? target.address).bind (·.value?)
  | _ => throw (target.mismatch "value")

/-- The value of a cell in the type of a kind. -/
def valueOf (agent : Agent) (kind : TypedKind) (locator : Locator) :
    Except EvaluationError (Option kind.Carrier) := do
  match ← agent.cellValue locator with
  | none => return none
  | some v =>
    match kind.ofValue? v with
    | some x => return some x
    | none => throw (.typeMismatch kind.kind v.typeName ("value of " ++ locator.display))

/-- The outcome of the last execution of an operation cell. -/
def lastOutcome (agent : Agent) (locator : Locator) :
    Except EvaluationError (Option ExecutionOutcome) := do
  let target ← agent.resolve locator
  let _ ← target.operationCell
  return agent.journal.lastOutcome? target.address

/-- The last validation event of a value cell that has a validation chain. -/
def lastValidation (agent : Agent) (locator : Locator) :
    Except EvaluationError (Option ValidationEvent) := do
  let target ← agent.resolve locator
  let rules ← target.rules
  return rules.validation.bind fun _ => (agent.journal.validations target.address).last?

def validity (agent : Agent) (locator : Locator) : Except EvaluationError ValidationState := do
  let target ← agent.resolve locator
  let _ ← target.rules
  return agent.journal.validationState target.address target.cell

def availability (agent : Agent) (locator : Locator) :
    Except EvaluationError AvailabilityState := do
  let target ← agent.resolve locator
  let _ ← target.rules
  return agent.journal.availabilityState target.address target.cell

end Agent

end ReportCalc
