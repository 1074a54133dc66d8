import ReportCalc.Evaluation.World

/-!
# Contexts and protocols

An evaluation reads the report in a `Context`, which also says which cell is being evaluated. A
`Protocol` says how operations of some kind are evaluated, given how to evaluate operands.
-/

namespace ReportCalc

variable {σ α : Type}

/-- Where an operation is evaluated: the report with its index, what is known about the sources of
protocols, the phase and the time of the pass, and the cell that is being evaluated. -/
structure Context where
  report : Report
  index : ReportIndex
  sources : Nat
  knows : ProtocolKey → Bool
  phase : Phase
  time : DateTime
  current : Option Resolved

/-- The two ways to evaluate an operation: in one go, or as a task that may be suspended. -/
structure Evaluator (σ : Type) where
  run : Context → Operation → Eval σ Value
  task : Context → Operation → Task σ Value

/-- The ways to evaluate operations of some kind, given the ways to evaluate operands. -/
structure Protocol (σ : Type) where
  run : Evaluator σ → Context → Operation → Eval σ Value
  task : Evaluator σ → Context → Operation → Task σ Value

/-- A protocol without a task of its own, which therefore is never suspended. -/
def Protocol.leaf (run : Evaluator σ → Context → Operation → Eval σ Value) : Protocol σ :=
  ⟨run, fun ev cx op => .ofEval (run ev cx op)⟩

/-- Refuses a value that the kind does not admit. -/
def Kind.check (expected : Kind) (v : Value) (context : String) : Except EvaluationError Value :=
  if expected.admits v then .ok v else .error (.typeMismatch expected v.typeName context)

/-- Refuses a result that is not of the declared kind of the operation. -/
def Operation.checked {m : Type → Type} [Interruptible m] (op : Operation) (x : m Value) :
    m Value := do
  op.kind.check (← x) op.tag.display

namespace Resolved

/-- The error for a cell that is of another sort than expected. -/
def mismatch (target : Resolved) (expected : String) : EvaluationError :=
  .cellKindMismatch target.label expected target.cell.sortName

/-- The operation cell, which it must be. -/
def operationCell (target : Resolved) : Except EvaluationError OperationCell :=
  match target.cell with
  | .operation c => .ok c
  | _ => .error (target.mismatch "operation")

/-- The rules of the value cell, which it must be. -/
def rules (target : Resolved) : Except EvaluationError CellRules :=
  match target.cell.rules? with
  | some rules => .ok rules
  | none => .error (target.mismatch "value")

end Resolved

namespace Context

/-- The context in which a cell's own operation and chains are evaluated. -/
def enter (cx : Context) (target : Resolved) : Context := { cx with current := some target }

def currentLabel (cx : Context) : String := (cx.current.map (·.label)).getD "<anonymous>"

def resolve (cx : Context) (locator : Locator) : Except EvaluationError Resolved :=
  cx.index.resolve cx.report locator (cx.current.map (·.address))

/-- Refuses an operation outside the phases in which it is allowed. -/
def requirePhase (cx : Context) (op : Operation) (allowed : List Phase) (required : String) :
    Except EvaluationError Unit :=
  if cx.phase ∈ allowed then .ok () else .error (.wrongPhase op.tag cx.phase required)

@[simp] theorem requirePhase_eq_ok_iff {cx : Context} {op : Operation} {allowed : List Phase}
    {required : String} {u : Unit} :
    cx.requirePhase op allowed required = .ok u ↔ cx.phase ∈ allowed := by
  unfold requirePhase
  split <;> simp_all

/-- The result already recorded in this pass, if there is one. A result of another time means that
the log was not cleared for this pass. -/
def settled? [PassContent α] (cx : Context) (log : EventLog α) (label : String) :
    Except EvaluationError (Option (Event α)) :=
  match log.last? with
  | none => .ok none
  | some e =>
    if PassContent.isCleared e.content then .ok none
    else if e.time == cx.time then .ok (some e)
    else .error (.timestampMismatch label cx.time e.time)

end Context

end ReportCalc
