import ReportCalc.Proofs.Evaluation.Correspondence
import ReportCalc.Proofs.Evaluation.Tasks
import ReportCalc.Proofs.Journal.Logs
import ReportCalc.Proofs.Report.References

/-!
# Evaluating nodes

What a phase records of a cell is the outcome of the cell's operation or chain (`Phase.outcome`),
evaluated in a context of its own. There the evaluation meets operations whose references are among
those of the node (`Context.InNode`), so what it reads of other cells are nodes that the node reads.
-/

namespace ReportCalc

variable {σ : Type} {m n : Type → Type} [Interruptible m] [Interruptible n]

/-! ## Outcomes -/

/-- The outcome of what a phase evaluates. -/
def Phase.outcome : (phase : Phase) → (Operation → m Value) → phase.Rule → m phase.Outcome
  | .execution, ev, op => outcomeOf (ev op)
  | .validation, ev, chain => validationOutcome ev chain
  | .availability, ev, chain => availabilityOutcome ev chain

/-- The operations that the outcome of a rule depends on. -/
def Phase.evaluated : (phase : Phase) → phase.Rule → List Operation
  | .execution, op => [op]
  | .validation, chain => (Operation.validate chain).operands
  | .availability, chain => (Operation.checkAvailability chain).operands

theorem Phase.contains_of_mem_evaluated {phase : Phase} {rule : phase.Rule} {op : Operation}
    (h : op ∈ phase.evaluated rule) : (phase.operation rule).Contains op := by
  cases phase with
  | execution => exact List.mem_singleton.1 h ▸ .refl op
  | validation => exact .operand h (.refl op)
  | availability => exact .operand h (.refl op)

theorem Phase.weight_le_of_mem_evaluated {phase : Phase} {rule : phase.Rule} {op : Operation}
    (h : op ∈ phase.evaluated rule) : op.weight ≤ (phase.operation rule).weight := by
  cases phase with
  | execution => exact List.mem_singleton.1 h ▸ Nat.le_refl _
  | validation => exact Nat.le_of_lt (Operation.weight_lt_of_mem_operands h)
  | availability => exact Nat.le_of_lt (Operation.weight_lt_of_mem_operands h)

/-- The only error of which no outcome is made is a fatal one, which is handed back. -/
theorem EvaluationError.eq_of_classify {e e' : EvaluationError} (h : e.classify = .error e') :
    e = e' := by
  unfold classify at h
  split at h <;> cases h
  rfl

theorem EvaluationError.fatal_of_classify {e e' : EvaluationError} (h : e.classify = .error e') :
    e'.isFatal = true := by
  unfold classify at h
  split at h <;> cases h
  assumption

theorem EvaluationError.classify_of_fatal {e : EvaluationError} (h : e.isFatal = true) :
    e.classify = .error e := if_pos h

/-- Outcomes are related when the evaluations of the operations that they depend on are. -/
theorem Correspondence.outcome {R : Correspondence m n} (hlocal : R.RecordsLocal) {phase : Phase}
    {rule : phase.Rule} {ev : Operation → m Value} {ev' : Operation → n Value}
    (h : ∀ op ∈ phase.evaluated rule, R.Rel (ev op) (ev' op)) :
    R.Rel (phase.outcome ev rule) (phase.outcome ev' rule) := by
  cases phase with
  | execution =>
    refine R.rescue (R.bind (h rule (List.mem_singleton_self _)) fun v => R.pure _) (fun e he => ?_)
      fun e he => R.ofExcept fun e' he' => EvaluationError.eq_of_classify he' ▸ he
    rw [EvaluationError.classify_of_fatal (hlocal.catches e he)]
    exact ⟨rfl, rfl⟩
  | validation => exact R.completedOr hlocal.catches (validateChain hlocal.admits h)
  | availability => exact R.completedOr hlocal.catches (checkChain hlocal.admits h)

theorem EvaluationError.isCleared_of_classify {e : EvaluationError} {outcome : ExecutionOutcome}
    (h : e.classify = .ok outcome) : PassContent.isCleared outcome = false := by
  unfold classify at h
  split at h
  · cases h
  · cases Except.ok.inj h
    cases e <;> rfl

namespace Task

theorem eq_of_run_completedOr {α β : Type} {completed : α → β} {failed : String → β}
    {x : Task σ α} {w : World σ} {b : β}
    (h : ((Eval.completedOr completed failed x).run w).1 = .ok b) :
    (∃ a, b = completed a) ∨ ∃ reason, b = failed reason := by
  rw [Eval.completedOr, run_rescue, run_bind] at h
  generalize x.run w = r at h
  rcases r with ⟨(e | _) | a, w'⟩
  · simp only at h
    split at h
    · cases h
    · exact .inr ⟨_, (Except.ok.inj h).symm⟩
  · cases h
  · exact .inl ⟨a, (Except.ok.inj h).symm⟩

theorem eq_of_run_outcomeOf {x : Task σ Value} {w : World σ} {outcome : ExecutionOutcome}
    (h : ((outcomeOf x).run w).1 = .ok outcome) :
    (∃ v, outcome = .succeeded v) ∨ ∃ e : EvaluationError, e.classify = .ok outcome := by
  rw [outcomeOf, run_rescue, run_bind] at h
  generalize x.run w = r at h
  rcases r with ⟨(e | _) | v, w'⟩
  · simp only at h
    cases hclassify : e.classify with
    | error e' =>
      rw [hclassify] at h
      cases h
    | ok outcome' =>
      rw [hclassify] at h
      exact .inr ⟨e, hclassify.trans (congrArg _ (Except.ok.inj h))⟩
  · cases h
  · exact .inl ⟨v, (Except.ok.inj h).symm⟩

/-- An outcome is a result, never the marker at the start of a pass. -/
theorem isCleared_outcome {phase : Phase} {ev : Operation → Task σ Value} {rule : phase.Rule}
    {w : World σ} {outcome : phase.Outcome}
    (h : ((phase.outcome ev rule).run w).1 = .ok outcome) :
    PassContent.isCleared outcome = false := by
  cases phase with
  | execution =>
    rcases eq_of_run_outcomeOf h with ⟨v, rfl⟩ | ⟨e, he⟩
    · rfl
    · exact EvaluationError.isCleared_of_classify he
  | validation => rcases eq_of_run_completedOr h with ⟨v, rfl⟩ | ⟨reason, rfl⟩ <;> rfl
  | availability => rcases eq_of_run_completedOr h with ⟨a, rfl⟩ | ⟨reason, rfl⟩ <;> rfl

end Task

/-! ## Rules of cells -/

/-- What a phase evaluates has a log for its outcome. -/
theorem Cell.hasLog_of_rule? {cell : Cell} {phase : Phase} {rule : phase.Rule}
    (h : cell.rule? phase = some rule) : cell.hasLog phase = true := by
  cases phase with
  | execution =>
    obtain ⟨c, hc, -⟩ := Option.map_eq_some_iff.1 h
    exact Option.isSome_of_mem hc
  | validation | availability =>
    obtain ⟨rules, hrules, -⟩ := Option.bind_eq_some_iff.1 h
    exact Option.isSome_of_mem hrules

namespace Resolved

variable {target : Resolved}

theorem operationCell_eq_ok_iff {c : OperationCell} :
    target.operationCell = .ok c ↔ target.cell = .operation c := by
  unfold operationCell
  cases target.cell <;> simp

theorem rules_eq_ok_iff {rules : CellRules} :
    target.rules = .ok rules ↔ target.cell.rules? = some rules := by
  unfold Resolved.rules
  cases target.cell.rules? <;> simp

theorem rule?_execution {c : OperationCell} (h : target.operationCell = .ok c) :
    target.cell.rule? .execution = some c.operation := by
  rw [Cell.rule?, operationCell_eq_ok_iff.1 h]
  rfl

/-- Only operation cells take part in the execution. -/
theorem exists_operation_of_rule? {op : Operation} (h : target.cell.rule? .execution = some op) :
    ∃ c, target.cell = .operation c ∧ c.operation = op := by
  obtain ⟨c, hc, hop⟩ := Option.map_eq_some_iff.1 h
  refine ⟨c, ?_, hop⟩
  generalize target.cell = cell at hc
  cases cell <;> cases hc
  rfl

theorem rule?_validation {rules : CellRules} (h : target.rules = .ok rules) :
    target.cell.rule? .validation = rules.validation := by
  rw [Cell.rule?, Cell.validation?, rules_eq_ok_iff.1 h]
  rfl

theorem rule?_availability {rules : CellRules} (h : target.rules = .ok rules) :
    target.cell.rule? .availability = rules.availability := by
  rw [Cell.rule?, Cell.availability?, rules_eq_ok_iff.1 h]
  rfl

end Resolved

/-! ## Reading what a locator has led to -/

/-- Reading the value of a cell that a locator has led to. Whether the cell is executed depends on
its sort only. -/
def readValue (access : Access m) (cx : Context) (kind : Kind) (target : Resolved) : m Value := do
  let check (v : Value) : m Value := kind.check v ("value of cell " ++ target.label)
  match target.operationCell with
  | .ok _ => do check (← succeededValue target (← access.execute cx target))
  | .error _ => do check (← storedValue target kind)

theorem cellValue_eq (access : Access m) (cx : Context) (locator : Locator) (kind : Kind) :
    cellValue access cx locator kind = liftM (cx.resolve locator) >>= readValue access cx kind := by
  refine congrArg _ (funext fun target => ?_)
  obtain ⟨a, cell⟩ := target
  cases cell <;> rfl

/-- Whether a cell that a locator has led to has a value. -/
def findValue (access : Access m) (cx : Context) (target : Resolved) : m Bool :=
  match target.operationCell with
  | .ok _ => do return (← access.execute cx target).value?.any (!·.isNull)
  | .error _ => return storedHasValue target.cell

theorem hasValue_eq (access : Access m) (cx : Context) (locator : Locator) :
    hasValue access cx locator = liftM (cx.resolve locator) >>= findValue access cx := by
  refine congrArg _ (funext fun target => ?_)
  obtain ⟨a, cell⟩ := target
  cases cell <;> rfl

/-- The verdict on the validity of a cell that a locator has led to. -/
def readValidity (access : Access m) (cx : Context) (target : Resolved) : m Validity := do
  match (← access.validate cx target).content with
  | .completed v => return v
  | .failed reason | .cleared reason => Eval.fail (.noVerdict target.label reason)

theorem validityOf_eq (access : Access m) (cx : Context) (locator : Locator) :
    validityOf access cx locator = liftM (cx.resolve locator) >>= readValidity access cx := rfl

/-- The verdict on the availability of a cell that a locator has led to. -/
def readAvailability (access : Access m) (cx : Context) (target : Resolved) : m Availability := do
  match (← access.check cx target).content with
  | .completed a => return a
  | .failed reason | .cleared reason => Eval.fail (.noVerdict target.label reason)

theorem availabilityOf_eq (access : Access m) (cx : Context) (locator : Locator) :
    availabilityOf access cx locator = liftM (cx.resolve locator) >>= readAvailability access cx :=
  rfl

/-! ## Contexts of nodes -/

namespace Context

/-- The context in which a phase evaluates the rule of a cell. -/
def own (cx : Context) (target : Resolved) (phase : Phase) : Context :=
  { cx with phase, current := some target }

/-- A context of the same pass over the same report. -/
def Within (base cx : Context) : Prop :=
  cx = { base with phase := cx.phase, current := cx.current }

namespace Within

variable {base cx : Context}

theorem refl (base : Context) : base.Within base := rfl

theorem own (base : Context) (target : Resolved) (phase : Phase) :
    base.Within (base.own target phase) := rfl

theorem own_eq (h : base.Within cx) (target : Resolved) (phase : Phase) :
    cx.own target phase = base.own target phase := by rw [h, Context.own, Context.own]

theorem enter_eq (h : base.Within cx) (target : Resolved) :
    cx.enter target = base.own target cx.phase := h.own_eq target cx.phase

theorem report_eq (h : base.Within cx) : cx.report = base.report := by rw [h]

theorem index_eq (h : base.Within cx) : cx.index = base.index := by rw [h]

theorem time_eq (h : base.Within cx) : cx.time = base.time := by rw [h]

theorem knows_eq (h : base.Within cx) : cx.knows = base.knows := by rw [h]

end Within

/-- The operation is evaluated for the node: the node's cell is current, and everything that the
operation mentions is mentioned by what the phase evaluates for the cell. -/
structure InNode (cx : Context) (n : Node) (op : Operation) : Prop where
  phase : cx.phase = n.phase
  current : cx.current.map (·.address) = some n.address
  mentions : ∃ cell root, cx.report.cellAt? n.address = some cell ∧ cell.root? n.phase = some root ∧
    ∀ ref, op.Mentions ref → root.Mentions ref

namespace InNode

variable {cx : Context} {n : Node} {op : Operation}

theorem operand (h : cx.InNode n op) {x : Operation} (hx : x ∈ op.operands) : cx.InNode n x := by
  obtain ⟨cell, root, hcell, hroot, hmentions⟩ := h.mentions
  exact ⟨h.phase, h.current, cell, root, hcell, hroot, fun ref href =>
    hmentions ref (.operand hx href)⟩

/-- What a reference of the operation leads to is read by the node. -/
theorem reads (h : cx.InNode n op) (hindex : cx.index = .build cx.report) {ref : Reference}
    (href : op.reference? = some ref) {target : Resolved}
    (htarget : cx.resolve ref.locator = .ok target) :
    cx.report.Reads n ⟨target.address, ref.phase⟩ := by
  obtain ⟨cell, root, hcell, hroot, hmentions⟩ := h.mentions
  rw [Context.resolve, h.current, hindex] at htarget
  exact ⟨cell, root, ref, target, hcell, hroot, hmentions ref (.reference href), htarget, rfl⟩

theorem cellAt?_eq {cx : Context} {locator : Locator} {target : Resolved}
    (htarget : cx.resolve locator = .ok target) :
    cx.report.cellAt? target.address = some target.cell :=
  ReportIndex.cellAt?_eq_of_resolve htarget

theorem of_mem_evaluated {base : Context} {target : Resolved} {phase : Phase} {rule : phase.Rule}
    (hcell : base.report.cellAt? target.address = some target.cell)
    (hrule : target.cell.rule? phase = some rule) {op : Operation}
    (hop : op ∈ phase.evaluated rule) :
    (base.own target phase).InNode ⟨target.address, phase⟩ op :=
  ⟨rfl, rfl, target.cell, phase.operation rule, hcell, Cell.root?_eq hrule,
    fun _ => (Phase.contains_of_mem_evaluated hop).mentions⟩

end InNode

/-- The operation is part of what some phase evaluates for the cell that is current. -/
def Owns (cx : Context) (op : Operation) : Prop :=
  ∃ a cell phase root, cx.current.map (·.address) = some a ∧ cx.report.cellAt? a = some cell ∧
    cell.root? phase = some root ∧ root.Contains op

namespace Owns

variable {cx : Context} {op : Operation}

theorem operand (h : cx.Owns op) {x : Operation} (hx : x ∈ op.operands) : cx.Owns x := by
  obtain ⟨a, cell, phase, root, hcurrent, hcell, hroot, hop⟩ := h
  exact ⟨a, cell, phase, root, hcurrent, hcell, hroot, hop.extend hx⟩

theorem of_mem_evaluated {target : Resolved} {phase : Phase} {rule : phase.Rule}
    (hcell : cx.report.cellAt? target.address = some target.cell)
    (hrule : target.cell.rule? phase = some rule) (hop : op ∈ phase.evaluated rule) :
    (cx.enter target).Owns op :=
  ⟨target.address, target.cell, phase, phase.operation rule, rfl, hcell, Cell.root?_eq hrule,
    Phase.contains_of_mem_evaluated hop⟩

/-- A value that the operation asks for is asked for in the report. -/
theorem asksFor {locator : Locator} {kind : Kind} (h : cx.Owns (.cellValue locator kind))
    (hindex : cx.index = .build cx.report) {target : Resolved}
    (htarget : cx.resolve locator = .ok target) : cx.report.AsksFor target.address kind := by
  obtain ⟨a, cell, phase, root, hcurrent, hcell, hroot, hop⟩ := h
  rw [resolve, hcurrent, hindex] at htarget
  exact ⟨a, cell, phase, root, locator, target, hcell, hroot, hop, htarget, rfl⟩

end Owns

end Context

end ReportCalc
