import ReportCalc.Proofs.Evaluation.Keeping

/-!
# Kinds of evaluated values

Every value that an operation is evaluated to is checked against the kind of the operation, and
every value that is read from a cell against the kind that it is read as, whatever protocols the
host has (`ProtocolChain.evaluator_admits`, `cellValue_admits`). So the values in the logs of
executions are of the kinds of the operations (`Report.AdmitsLogs`) as long as evaluations alone
write to the logs (`ProtocolChain.evaluator_keeps`).
-/

namespace ReportCalc

variable {σ : Type}

/-! ## Kinds of values -/

theorem Kind.admits_of_check {kind : Kind} {v v' : Value} {context : String}
    (h : kind.check v context = .ok v') : kind.admits v' = true := by
  unfold check at h
  split at h
  · cases h
    assumption
  · cases h

/-- The outcome of a rule, if it is a value, is one of the kind of the operation. -/
def Phase.AdmitsOutcome : (phase : Phase) → phase.Rule → phase.Outcome → Prop
  | .execution, op, outcome => ∀ v, outcome = .succeeded v → op.kind.admits v = true
  | .validation, _, _ | .availability, _, _ => True

/-- Every value that is read from a cell is one of the kind that it is read as. -/
theorem cellValue_admits (access : Access (Task σ)) (access' : Access (Eval σ)) (cx : Context)
    (locator : Locator) (kind : Kind) :
    Maintains (fun _ => True) (fun v => kind.admits v = true) (cellValue access cx locator kind)
      (cellValue access' cx locator kind) := by
  rw [cellValue_eq, cellValue_eq]
  refine .bind .any fun target _ => ?_
  unfold readValue
  have check (v : Value) := Maintains.ofExcept (σ := σ) (I := fun _ => True)
    fun v' (h : kind.check v ("value of cell " ++ target.label) = .ok v') => Kind.admits_of_check h
  split
  · exact .bind .any fun _ _ => .bind .any fun v _ => check v
  · exact .bind .any fun v _ => check v

theorem EvaluationError.classify_ne_succeeded {e : EvaluationError} {v : Value} :
    e.classify ≠ .ok (.succeeded v) := by
  intro h
  unfold classify at h
  split at h
  · cases h
  · cases e <;> cases h

theorem outcomeOf_admits {op : Operation} {x : Task σ Value} {y : Eval σ Value}
    (h : Maintains (fun _ => True) (fun v => op.kind.admits v = true) x y) :
    Maintains (fun _ => True) (Phase.execution.AdmitsOutcome op) (outcomeOf x) (outcomeOf y) := by
  refine .rescue (h.bind fun v hv => .pure ?_) fun e => .ofExcept fun outcome he => ?_
  · rintro _ ⟨⟩
    exact hv
  · rintro v rfl
    exact absurd he EvaluationError.classify_ne_succeeded

namespace ProtocolChain

/-- Every value that an operation is evaluated to is one of the kind of the operation, whatever
protocols evaluate it. -/
theorem evaluator_admits (chain : ProtocolChain σ) (fuel : Nat) (cx : Context) (op : Operation) :
    Maintains (fun _ => True) (fun v => op.kind.admits v = true)
      ((chain.evaluator fuel).task cx op) ((chain.evaluator fuel).run cx op) := by
  cases fuel with
  | zero => exact .outOfFuel
  | succ fuel =>
    refine .bind .any fun protocol _ => .bind .any fun v _ => .ofExcept fun v' h => ?_
    exact Kind.admits_of_check h

theorem outcome_admits (chain : ProtocolChain σ) (fuel : Nat) (cx : Context) (phase : Phase)
    (rule : phase.Rule) :
    Maintains (fun _ => True) (phase.AdmitsOutcome rule)
      (phase.outcome ((chain.evaluator fuel).task cx) rule)
      (phase.outcome ((chain.evaluator fuel).run cx) rule) := by
  cases phase with
  | execution => exact outcomeOf_admits (chain.evaluator_admits fuel cx rule)
  | validation | availability => exact .any

end ProtocolChain

/-! ## Kinds of values in logs -/

/-- The values in the logs of executions are of the kinds of the operations. -/
def Report.AdmitsLogs (r : Report) (j : Journal) : Prop :=
  ∀ a c, r.cellAt? a = some (.operation c) → ∀ e ∈ (j.executions a).events,
    Phase.execution.AdmitsOutcome c.operation e.content

namespace Report.AdmitsLogs

variable {r : Report} {j : Journal} {time : DateTime}

theorem empty : r.AdmitsLogs .empty := fun _ _ _ => List.forall_mem_nil _

/-- Clearing the logs leaves no values in them, whatever they held. -/
theorem clearLogs (h : r.WellFormed) (j : Journal) (reason : String) :
    r.AdmitsLogs (j.clearLogs r reason time) := by
  intro a c hc e he
  have hlog : (j.clearLogs r reason time).logOf .execution a =
      .single (PassContent.marker reason time) :=
    Journal.logOf_clearLogs ((mem_cells_iff h).2 hc) rfl
  replace he : e ∈ ((j.clearLogs r reason time).logOf .execution a).events := he
  rw [hlog] at he
  cases List.mem_singleton.1 he
  nofun

theorem push (h : r.AdmitsLogs j) {target : Resolved} {phase : Phase} {rule : phase.Rule}
    {outcome : phase.Outcome} (hcell : r.cellAt? target.address = some target.cell)
    (hrule : target.cell.rule? phase = some rule) (houtcome : phase.AdmitsOutcome rule outcome) :
    r.AdmitsLogs (j.push phase.logKind target.address ⟨time, outcome⟩) := by
  intro a c hc e he
  by_cases hne : (⟨target.address, phase⟩ : Node) = ⟨a, .execution⟩
  · cases hne
    obtain ⟨d, hd, rfl⟩ := Resolved.exists_operation_of_rule? hrule
    rw [hd] at hcell
    cases hcell.symm.trans hc
    have hlog : ((j.push Phase.execution.logKind target.address ⟨time, outcome⟩).executions
        target.address).events = (j.executions target.address).events ++ [⟨time, outcome⟩] :=
      congrArg EventLog.events (Journal.log_push _)
    rw [hlog] at he
    rcases List.mem_append.1 he with he | he
    · exact h _ _ hc e he
    · cases List.mem_singleton.1 he
      exact houtcome
  · have hlog : (j.push phase.logKind target.address ⟨time, outcome⟩).executions a =
        j.executions a := by
      refine Journal.log_append_of_ne ?_
      rwa [Journal.node_record, Phase.phase_logKind]
    rw [hlog] at he
    exact h a c hc e he

end Report.AdmitsLogs

namespace ProtocolChain

variable {host : List (ProtocolSource σ)} {kinds : List Kind} {r : Report}

section Nodes
variable {chain : ProtocolChain σ} {fuel : Nat} (h : ∀ cx op, cx.report = r →
  (keeping r.AdmitsLogs).Rel ((chain.evaluator fuel).task cx op) ((chain.evaluator fuel).run cx op))
include h

/-- Settling nodes keeps the kinds of the values in logs when evaluating operations does. -/
theorem settle_keeps {cx : Context} (hreport : cx.report = r) {target : Resolved}
    (hcell : r.cellAt? target.address = some target.cell) (phase : Phase) (rule : phase.Rule)
    (hrule : target.cell.rule? phase = some rule) :
    (keeping r.AdmitsLogs).Rel
      (settle phase.logKind cx target
        (phase.outcome ((chain.evaluator fuel).task (cx.enter target)) rule))
      (settle phase.logKind cx target
        (phase.outcome ((chain.evaluator fuel).run (cx.enter target)) rule)) := by
  have hadmits := chain.outcome_admits fuel (cx.enter target) phase rule
  refine Maintains.settle (.withValue ?_ hadmits) ?_
  · exact Correspondence.outcome keeping_recordsLocal fun op _ => h (cx.enter target) op hreport
  · intro outcome houtcome j hj
    exact hj.push hcell hrule houtcome

theorem keeps_of_evaluate : (chain.evaluator fuel).Keeps r r.AdmitsLogs := by
  refine ⟨h, fun cx phase target hreport hcell => ?_⟩
  exact Correspondence.visit_recorded keeping_recordsLocal.admits
    (settle_keeps h hreport hcell phase)

end Nodes

/-- All evaluations keep the kinds of the values in logs when the host writes no logs itself. The
induction is on the fuel: the operands and the nodes that are read are evaluated with less of it. -/
theorem evaluator_keeps (hhost : ∀ source ∈ host, source.WritesNoLogs) (r : Report) (fuel : Nat) :
    ((withBuiltins host kinds).evaluator fuel).Keeps r r.AdmitsLogs := by
  induction fuel with
  | zero => exact keeps_of_evaluate fun _ _ _ => .outOfFuel
  | succ fuel ih =>
    refine keeps_of_evaluate fun cx op hreport => ?_
    refine Correspondence.dispatch keeping_recordsLocal.admits trivial fun protocol hprotocol => ?_
    rcases lookup_withBuiltins hprotocol with ⟨source, hsource, hfound⟩ | rfl
    · exact hhost source hsource _ protocol hfound _ r _ ih cx op hreport
    · refine Correspondence.rule (fun _ _ => trivial) (fun x _ => ih.evaluate cx x hreport) ?_
      intro ref _ target htarget
      have hcell := Context.InNode.cellAt?_eq htarget
      rw [hreport] at hcell
      exact Correspondence.reads_recorded keeping_recordsLocal.admits
        (settle_keeps ih.evaluate hreport hcell ref.phase)

end ProtocolChain

end ReportCalc
