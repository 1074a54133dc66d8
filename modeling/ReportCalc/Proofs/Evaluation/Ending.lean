import ReportCalc.Proofs.Evaluation.Suspension

/-!
# Evaluations end

On an acyclic report every evaluation comes to an end, wherever it starts and whatever the journal
holds. Fuel for the weight of an operation and for all nodes that it leads to suffices, and more of
it makes no difference (`ProtocolChain.evaluator_ending`): an operand weighs less than the
operation, and a node that is read has less below it than the node that reads it.
-/

namespace ReportCalc

variable {σ α : Type}

/-- Runs by fuel end with this much of it: from there on they do not run out of fuel, and more of it
makes no difference. -/
def EndsAt (bound : Nat) (run : Nat → World σ → Except Interrupt α × World σ) : Prop :=
  ∀ fuel, bound ≤ fuel → ∀ w, (run fuel w).1 ≠ .error .outOfFuel ∧ run fuel w = run bound w

/-! ## Tasks that end -/

namespace Task

/-- The task ends, and the other one does the same. -/
def ending : Correspondence (Task σ) (Task σ) where
  Rel x y := ∀ w, (x.run w).1 ≠ .error .outOfFuel ∧ y.run w = x.run w
  Admits _ := True
  Escapes _ := False
  not_signal := @EvaluationError.isSignal_of_false
  pure _ _ := ⟨nofun, rfl⟩
  fail _ _ := ⟨nofun, rfl⟩
  bind {_ _ x _ _ _} hx hf w := by
    obtain ⟨hends, hsame⟩ := hx w
    rw [run_bind, run_bind, hsame]
    rcases hrun : x.run w with ⟨i | a, w'⟩
    · rw [hrun] at hends
      exact ⟨fun h => hends (by cases h; rfl), rfl⟩
    · exact hf a w'
  lift {_ _ x _ _} _ hf w := by
    cases x with
    | ok a => exact hf a rfl w
    | error e => exact ⟨nofun, rfl⟩
  rescue {_ x _ _ _} hx _ hf w := by
    obtain ⟨hends, hsame⟩ := hx w
    rw [run_rescue, run_rescue, hsame]
    rcases hrun : x.run w with ⟨(e | _) | a, w'⟩
    · exact hf e trivial w'
    · rw [hrun] at hends
      exact absurd rfl hends
    · exact ⟨nofun, rfl⟩

theorem ending_recordsLocal : (ending : Correspondence (Task σ) (Task σ)).RecordsLocal :=
  ⟨fun _ _ => trivial, fun _ => False.elim⟩

theorem ending_settles : (ending : Correspondence (Task σ) (Task σ)).Settles :=
  Correspondence.settles_of (fun _ => ⟨nofun, rfl⟩) (fun _ _ => ⟨nofun, rfl⟩)
    fun _ _ _ => trivial

/-- A task by fuel ends when it does with some fuel, and does the same with more. -/
theorem endsAt_of_ending {bound : Nat} {x : Nat → Task σ α}
    (h : ∀ fuel, bound ≤ fuel → ending.Rel (x bound) (x fuel)) :
    EndsAt bound fun fuel => (x fuel).run := by
  intro fuel hfuel w
  obtain ⟨hends, hsame⟩ := h fuel hfuel w
  exact ⟨fun h => hends (hsame ▸ h), hsame⟩

end Task

/-! ## How deep an operation leads -/

namespace Context

/-- What the references of the operation lead to weighs no more than this, together with everything
below. -/
def LeadsWithin (cx : Context) (op : Operation) (depth : Nat) : Prop :=
  ∀ ref, op.Mentions ref → ∀ target, cx.resolve ref.locator = .ok target →
    cx.report.depthBelow ⟨target.address, ref.phase⟩ +
      cx.report.nodeWeight ⟨target.address, ref.phase⟩ ≤ depth

variable {cx : Context} {op : Operation}

theorem LeadsWithin.operand {depth : Nat} (h : cx.LeadsWithin op depth) {x : Operation}
    (hx : x ∈ op.operands) : cx.LeadsWithin x depth := fun ref href =>
  h ref (.operand hx href)

section Acyclic
variable (hwf : cx.report.WellFormed) (hacyclic : cx.report.Acyclic)
  (hindex : cx.index = .build cx.report)
include hwf hacyclic

/-- No operation leads deeper than evaluations of the report may nest. -/
theorem leadsWithin_evaluationDepth : cx.LeadsWithin op cx.report.evaluationDepth := by
  intro ref _ target htarget
  have hcell := (Report.mem_cells_iff hwf).2 (InNode.cellAt?_eq htarget)
  exact hacyclic.depthBelow_add_le_evaluationDepth hwf (Report.mem_nodes hcell ref.phase)

include hindex

/-- What is evaluated for a node leads to what is below the node. -/
theorem leadsWithin_of_mem_evaluated {target : Resolved} {phase : Phase} {rule : phase.Rule}
    (hcell : cx.report.cellAt? target.address = some target.cell)
    (hrule : target.cell.rule? phase = some rule) (hop : op ∈ phase.evaluated rule) :
    (cx.enter target).LeadsWithin op (cx.report.depthBelow ⟨target.address, phase⟩) := by
  intro ref href found hfound
  refine hacyclic.depthBelow_add_le hwf ?_
  rw [resolve, enter, Option.map_some, hindex] at hfound
  exact ⟨target.cell, _, ref, found, hcell, Cell.root?_eq hrule,
    (Phase.contains_of_mem_evaluated hop).mentions href, hfound, rfl⟩

end Acyclic

end Context

/-! ## Evaluations -/

namespace ProtocolChain

variable {chain : ProtocolChain σ} (hchain : chain.IsBuiltin) {report : Report}
  (hwf : report.WellFormed) (hacyclic : report.Acyclic)
include hwf hacyclic

/-- With the fuel that its weight and the nodes below it ask for, what is evaluated for a node ends
when all evaluations with this much fuel do. -/
theorem ending_outcome {fuel fuel' : Nat} (hev : ∀ {cx : Context} {op : Operation} {depth : Nat},
      cx.report = report → cx.index = .build report → cx.LeadsWithin op depth →
        op.weight + depth ≤ fuel →
          Task.ending.Rel ((chain.evaluator fuel).task cx op) ((chain.evaluator fuel').task cx op))
    {cx : Context} (hreport : cx.report = report) (hindex : cx.index = .build report)
    {target : Resolved} {phase : Phase} (hcell : report.cellAt? target.address = some target.cell)
    (hfuel : report.depthBelow ⟨target.address, phase⟩ +
      report.nodeWeight ⟨target.address, phase⟩ ≤ fuel)
    (rule : phase.Rule) (hrule : target.cell.rule? phase = some rule) :
    Task.ending.Rel (phase.outcome ((chain.evaluator fuel).task (cx.enter target)) rule)
      (phase.outcome ((chain.evaluator fuel').task (cx.enter target)) rule) := by
  subst hreport
  refine Correspondence.outcome Task.ending_recordsLocal fun op hop => ?_
  have hweight := Phase.weight_le_of_mem_evaluated hop
  rw [Report.nodeWeight_eq hcell hrule] at hfuel
  exact hev rfl hindex (Context.leadsWithin_of_mem_evaluated hwf hacyclic hindex hcell hrule hop)
    (by omega)

include hchain

/-- The induction is on the fuel. -/
theorem evaluator_ending {fuel fuel' : Nat} (hmore : fuel ≤ fuel') {cx : Context} {op : Operation}
    {depth : Nat} (hreport : cx.report = report) (hindex : cx.index = .build report)
    (hleads : cx.LeadsWithin op depth) (hfuel : op.weight + depth ≤ fuel) :
    Task.ending.Rel ((chain.evaluator fuel).task cx op) ((chain.evaluator fuel').task cx op) := by
  have hpos := op.weight_pos
  induction fuel generalizing fuel' cx op depth with
  | zero => omega
  | succ fuel ih =>
    obtain ⟨fuel', rfl⟩ := Nat.exists_eq_add_of_le' (Nat.le_trans (Nat.le_add_left 1 fuel) hmore)
    have hless : fuel ≤ fuel' := Nat.le_of_succ_le_succ hmore
    refine Correspondence.dispatch Task.ending_recordsLocal.admits trivial fun protocol hfound => ?_
    obtain rfl := hchain _ _ hfound
    refine Correspondence.rule (fun _ _ => trivial) (fun x hx => ?_) ?_
    · have hweight := Operation.weight_lt_of_mem_operands hx
      exact ih hless hreport hindex (hleads.operand hx) (by omega) x.weight_pos
    · intro ref href target htarget
      have hdepth := hleads ref (.reference href) target htarget
      have hcell := Context.InNode.cellAt?_eq htarget
      rw [hreport] at hdepth hcell
      refine Correspondence.reads_recorded Task.ending_recordsLocal.admits fun rule hrule =>
        Task.ending_settles cx target ?_
      refine ending_outcome hwf hacyclic (fun hreport hindex hleads hfuel => ?_) hreport hindex
        hcell (by omega) rule hrule
      exact ih hless hreport hindex hleads hfuel (Operation.weight_pos _)

/-- A node of the report ends with the fuel for everything that evaluations of the report may nest,
in whatever phase and from wherever it is asked for. -/
theorem visit_ending {fuel fuel' : Nat} (hmore : fuel ≤ fuel')
    (hfuel : report.evaluationDepth ≤ fuel) {cx : Context} (hreport : cx.report = report)
    (hindex : cx.index = .build report) {target : Resolved}
    (hcell : report.cellAt? target.address = some target.cell) (phase : Phase) :
    Task.ending.Rel (phase.visit (.recorded (chain.evaluator fuel).task) cx target)
      (phase.visit (.recorded (chain.evaluator fuel').task) cx target) := by
  have hmem : ⟨target.address, phase⟩ ∈ report.nodes :=
    Report.mem_nodes ((Report.mem_cells_iff hwf).2 hcell) phase
  have hdepth := hacyclic.depthBelow_add_le_evaluationDepth hwf hmem
  refine Correspondence.visit_recorded Task.ending_recordsLocal.admits fun rule hrule =>
    Task.ending_settles cx target ?_
  exact ending_outcome hwf hacyclic (evaluator_ending hchain hwf hacyclic hmore) hreport hindex
    hcell (Nat.le_trans hdepth hfuel) rule hrule

end ProtocolChain

end ReportCalc
