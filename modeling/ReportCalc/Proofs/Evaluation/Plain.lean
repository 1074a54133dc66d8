import ReportCalc.Proofs.Evaluation.Nodes

/-!
# Plain evaluation

The plain evaluation of operations has neither a journal nor any other state. Wherever an operation
refers to another cell, the operation or the chain of that cell is evaluated from scratch, in the
phase that it belongs to. On an acyclic report this comes to an end: fuel for the weight of the
operation and of all nodes below it suffices (`Plain.outcome_ne_outOfFuel`).
-/

namespace ReportCalc

namespace Plain

/-! ## The evaluation -/

/-- Access to results that are computed anew every time. -/
def access {m : Type → Type} [Interruptible m] (ev : Context → Operation → m Value) : Access m where
  evaluate := ev
  execute cx target := do
    let cell ← target.operationCell
    outcomeOf (ev (cx.own target .execution) cell.operation)
  validate cx target := do
    match (← target.rules).validation with
    | none => return ⟨cx.time, .completed ⟨.valid, none⟩⟩
    | some chain =>
      return ⟨cx.time, ← validationOutcome (ev (cx.own target .validation)) chain⟩
  check cx target := do
    match (← target.rules).availability with
    | none => return ⟨cx.time, .completed .enabled⟩
    | some chain =>
      return ⟨cx.time, ← availabilityOutcome (ev (cx.own target .availability)) chain⟩

/-- The value of an operation of which the protocol is known. -/
def evaluate : Nat → Context → Operation → Except Interrupt Value
  | 0, _, _ => Eval.outOfFuel
  | fuel + 1, cx, op =>
    if cx.knows (.of op) then
      op.checked (BuiltinRule.ofTag op.tag (access (evaluate fuel)) cx op)
    else
      Eval.fail (.protocolNotFound op.tag op.kind)

/-- The outcome of what a phase evaluates for a cell. -/
def outcome (base : Context) (target : Resolved) (phase : Phase) (rule : phase.Rule) (fuel : Nat) :
    Except Interrupt phase.Outcome :=
  phase.outcome (evaluate fuel (base.own target phase)) rule

/-- Reading a node is related to itself when evaluating its rule is. -/
theorem reads_of_outcome {m n : Type → Type} [Interruptible m] [Interruptible n]
    {R : Correspondence m n} (hlocal : R.AdmitsLocal) {ev : Context → Operation → m Value}
    {ev' : Context → Operation → n Value} {cx : Context} {target : Resolved} {phase : Phase}
    (h : ∀ rule, target.cell.rule? phase = some rule →
      R.Rel (phase.outcome (ev (cx.own target phase)) rule)
        (phase.outcome (ev' (cx.own target phase)) rule)) :
    R.Reads (access ev) (access ev') cx target phase := by
  cases phase with
  | execution =>
    intro _ _
    exact hlocal.lift (.operationCell target) fun c hc => h _ (Resolved.rule?_execution hc)
  | validation =>
    intro _
    refine hlocal.lift (.rules target) fun rules hrules => ?_
    cases hchain : rules.validation with
    | none => exact R.pure _
    | some chain =>
      have hrule := (Resolved.rule?_validation hrules).trans hchain
      exact R.bind (h chain hrule) fun _ => R.pure _
  | availability =>
    intro _
    refine hlocal.lift (.rules target) fun rules hrules => ?_
    cases hchain : rules.availability with
    | none => exact R.pure _
    | some chain =>
      have hrule := (Resolved.rule?_availability hrules).trans hchain
      exact R.bind (h chain hrule) fun _ => R.pure _

/-! ## Termination -/

/-- Computations that do not run out of fuel. -/
def sufficient : Correspondence (Except Interrupt) (Except Interrupt) where
  Rel x _ := x ≠ .error .outOfFuel
  Admits _ := True
  Escapes _ := False
  not_signal := @EvaluationError.isSignal_of_false
  pure _ := nofun
  fail _ := nofun
  bind {_ _ x _ _ _} hx hf := by
    cases x with
    | ok a => exact hf a
    | error i => exact fun h => hx (by cases h; rfl)
  lift {_ _ x _ _} _ hf := by
    cases x with
    | ok a => exact hf a rfl
    | error e => exact nofun
  rescue {_ x _ _ _} hx _ hf := by
    rcases x with (e | _) | a
    · exact hf e trivial
    · exact absurd rfl hx
    · exact nofun

theorem sufficient_recordsLocal : sufficient.RecordsLocal :=
  ⟨fun _ _ => trivial, fun _ => False.elim⟩

section Termination
variable {base : Context} (hwf : base.report.WellFormed) (hacyclic : base.report.Acyclic)
  (hindex : base.index = .build base.report)
include hwf hacyclic hindex

/-- An operand weighs less than the operation; what is evaluated for a node that is read is among
what lies below, and so is everything that this node reads. -/
theorem sufficient_rule {fuel : Nat} {cx : Context} {n : Node} {op : Operation}
    (hev : ∀ {cx : Context} {n : Node} {op : Operation}, base.Within cx → cx.InNode n op →
      op.weight + base.report.depthBelow n ≤ fuel → evaluate fuel cx op ≠ .error .outOfFuel)
    (hcx : base.Within cx) (hop : cx.InNode n op)
    (hfuel : op.weight + base.report.depthBelow n ≤ fuel + 1) :
    sufficient.Rel (BuiltinRule.ofTag op.tag (access (evaluate fuel)) cx op)
      (BuiltinRule.ofTag op.tag (access (evaluate fuel)) cx op) := by
  refine Correspondence.rule (fun _ _ => trivial) (fun x hx => ?_) fun ref href target htarget => ?_
  · have hweight := Operation.weight_lt_of_mem_operands hx
    exact hev hcx (hop.operand hx) (by omega)
  · have hread := hop.reads (by rw [hcx.index_eq, hcx.report_eq, hindex]) href htarget
    have hcell := Context.InNode.cellAt?_eq htarget
    rw [hcx.report_eq] at hread hcell
    have hdepth := hacyclic.depthBelow_add_le hwf hread
    refine reads_of_outcome sufficient_recordsLocal.admits fun rule hrule => ?_
    rw [Report.nodeWeight_eq hcell hrule] at hdepth
    rw [hcx.own_eq]
    refine Correspondence.outcome sufficient_recordsLocal fun x hx => ?_
    have hweight := Phase.weight_le_of_mem_evaluated hx
    have hpos := op.weight_pos
    exact hev (.own base target _) (.of_mem_evaluated hcell hrule hx) (by omega)

/-- The induction is on the fuel. -/
theorem evaluate_ne_outOfFuel {fuel : Nat} {cx : Context} {n : Node} {op : Operation}
    (hcx : base.Within cx) (hop : cx.InNode n op)
    (hfuel : op.weight + base.report.depthBelow n ≤ fuel) :
    evaluate fuel cx op ≠ .error .outOfFuel := by
  induction fuel generalizing cx n op with
  | zero =>
    have hpos := op.weight_pos
    omega
  | succ fuel ih =>
    rw [evaluate]
    split
    · exact Correspondence.checked sufficient_recordsLocal.admits
        (sufficient_rule hwf hacyclic hindex ih hcx hop hfuel)
    · exact nofun

/-- The evaluation of a cell of the report ends within the bound on evaluations of the report. -/
theorem outcome_ne_outOfFuel {fuel : Nat} {target : Resolved} {phase : Phase} {rule : phase.Rule}
    (hcell : base.report.cellAt? target.address = some target.cell)
    (hrule : target.cell.rule? phase = some rule) (hfuel : base.report.evaluationDepth ≤ fuel) :
    outcome base target phase rule fuel ≠ .error .outOfFuel := by
  have hmem : ⟨target.address, phase⟩ ∈ base.report.nodes :=
    Report.mem_nodes ((Report.mem_cells_iff hwf).2 hcell) phase
  have hdepth := hacyclic.depthBelow_add_le_evaluationDepth hwf hmem
  rw [Report.nodeWeight_eq hcell hrule] at hdepth
  have related : sufficient.Rel (outcome base target phase rule fuel)
      (outcome base target phase rule fuel) := by
    refine Correspondence.outcome sufficient_recordsLocal fun x hx => ?_
    have hweight := Phase.weight_le_of_mem_evaluated hx
    exact evaluate_ne_outOfFuel hwf hacyclic hindex (.own base target phase)
      (.of_mem_evaluated hcell hrule hx) (by omega)
  exact related

end Termination

end Plain

end ReportCalc
