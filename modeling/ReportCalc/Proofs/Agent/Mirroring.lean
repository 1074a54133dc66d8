import ReportCalc.Proofs.Agent.Passes
import ReportCalc.Proofs.Evaluation.Shift
import ReportCalc.Proofs.Journal.Mirrors

/-!
# Passes that mirror each other

A pass reads no log that it has not cleared, so it does not depend on what earlier passes have
recorded, and its time only shows in what it records. Two passes over reports that resemble each
other have the same result and leave journals behind that mirror each other, whatever they start
from (`ProtocolChain.passTask_mirrors`).
-/

namespace ReportCalc

variable {σ : Type} {r : Report} {time time' : DateTime} {u : InputUpdate}

/-- Among contents that were recorded at the time of the pass, the last one counts unless it is the
marker of the start. -/
theorem Context.settled?_ofContents {α : Type} [PassContent α] {cx : Context} {contents : List α}
    {label : String} : cx.settled? (.ofContents cx.time contents) label =
      .ok ((contents.getLast?.filter fun a => !PassContent.isCleared a).map (⟨cx.time, ·⟩)) := by
  rw [settled?, EventLog.last?_ofContents]
  cases contents.getLast? with
  | none => rfl
  | some a =>
    have same : (cx.time == cx.time) = true := beq_self_eq_true cx.time.instant
    cases hcleared : PassContent.isCleared a <;> simp [hcleared, same, Option.filter]

/-- Visiting a cell in the shifted place is another access to the cell. -/
theorem Phase.visit_shift {phase : Phase} {access : Access (Task σ)} {cx : Context}
    {target : Resolved} : phase.visit (access.shift u time) cx target =
      phase.visit access (cx.shift u time) (target.update u) := by
  cases phase with
  | execution => rfl
  | validation | availability => exact bind_assoc (m := Task σ) ..

namespace Task

/-! ## Tasks -/

/-- Tasks that, from journals that mirror each other, have the same result and leave such journals
behind. -/
def mirroring (r : Report) (time time' : DateTime) : Correspondence (Task σ) (Task σ) where
  Rel x y := ∀ w w' : World σ, Journal.Mirrors r time time' w.journal w'.journal →
    ∃ result v v', x.run w = (result, v) ∧ y.run w' = (result, v') ∧
      Journal.Mirrors r time time' v.journal v'.journal
  Admits _ := True
  Escapes _ := False
  not_signal := @EvaluationError.isSignal_of_false
  pure _ _ _ h := ⟨_, _, _, rfl, rfl, h⟩
  fail _ _ _ h := ⟨_, _, _, rfl, rfl, h⟩
  bind hx hf w w' h := by
    obtain ⟨result, v, v', hxrun, hyrun, hafter⟩ := hx w w' h
    rw [run_bind, run_bind, hxrun, hyrun]
    cases result with
    | ok a => exact hf a v v' hafter
    | error i => exact ⟨_, _, _, rfl, rfl, hafter⟩
  lift {_ _ x _ _} _ hf w w' h := by
    cases x with
    | ok a => exact hf a rfl w w' h
    | error e => exact ⟨_, _, _, rfl, rfl, h⟩
  rescue hx _ hf w w' h := by
    obtain ⟨result, v, v', hxrun, hyrun, hafter⟩ := hx w w' h
    rw [run_rescue, run_rescue, hxrun, hyrun]
    rcases result with (e | _) | a
    · exact hf e trivial v v' hafter
    · exact ⟨_, _, _, rfl, rfl, hafter⟩
    · exact ⟨_, _, _, rfl, rfl, hafter⟩

theorem mirroring_recordsLocal :
    (mirroring r time time' : Correspondence (Task σ) (Task σ)).RecordsLocal :=
  ⟨fun _ _ => trivial, fun _ => False.elim⟩

/-- Settling a cell takes the same outcome from both journals, or records the same in both. -/
theorem mirroring_settle {phase : Phase} {cx : Context} {target : Resolved}
    {x y : Task σ phase.Outcome} (htime : cx.time = time)
    (hcell : r.cellAt? target.address = some target.cell)
    (hlog : target.cell.hasLog phase = true) (h : (mirroring r time time').Rel x y) :
    (mirroring r time time').Rel (settle phase.logKind cx target x)
      (settle phase.logKind (cx.shift u time') (target.update u) y >>= fun event =>
        pure ⟨cx.time, event.content⟩) := by
  intro w w' hw
  subst htime
  obtain ⟨contents, hj, hk⟩ := hw target.address target.cell phase hcell hlog
  have found : cx.settled? (w.journal.log phase.logKind target.address) target.label = _ :=
    (congrArg (cx.settled? · target.label) hj).trans Context.settled?_ofContents
  have found' : (cx.shift u time').settled?
      (w'.journal.log phase.logKind (target.update u).address) (target.update u).label = _ :=
    (congrArg ((cx.shift u time').settled? · _) hk).trans Context.settled?_ofContents
  rw [run_bind, run_settle, run_settle, found, found']
  cases contents.getLast?.filter fun a => !PassContent.isCleared a with
  | some outcome => exact ⟨_, _, _, rfl, rfl, hw⟩
  | none =>
    obtain ⟨result, v, v', hxrun, hyrun, hafter⟩ := h w w' hw
    simp only [Option.map_none, hxrun, hyrun]
    cases result with
    | ok outcome =>
      exact ⟨_, _, _, rfl, rfl, hafter.push target.address phase outcome⟩
    | error i => exact ⟨_, _, _, rfl, rfl, hafter⟩

section Evaluations
variable {ev : Context → Operation → Task σ Value}
  (hev : ∀ cx op, cx.report = r → cx.index = .build r → cx.time = time → cx.Owns op →
    (mirroring r time time').Rel (ev cx op) (ev (cx.shift u time') op))
  {cx : Context} (hreport : cx.report = r) (hindex : cx.index = .build r) (htime : cx.time = time)
include hev hreport hindex htime

theorem mirroring_settle_outcome {target : Resolved}
    (hcell : r.cellAt? target.address = some target.cell) {phase : Phase} {rule : phase.Rule}
    (hrule : target.cell.rule? phase = some rule) :
    (mirroring r time time').Rel
      (settle phase.logKind cx target (phase.outcome (ev (cx.enter target)) rule))
      (settle phase.logKind (cx.shift u time') (target.update u)
        (phase.outcome (ev ((cx.shift u time').enter (target.update u))) rule) >>= fun event =>
          pure ⟨cx.time, event.content⟩) := by
  refine mirroring_settle htime hcell (Cell.hasLog_of_rule? hrule) ?_
  refine Correspondence.outcome mirroring_recordsLocal fun op hop => ?_
  exact hev _ op hreport hindex htime (.of_mem_evaluated (hreport ▸ hcell) hrule hop)

/-- Reading a cell corresponds to reading it in the shifted place. -/
theorem mirroring_reads {target : Resolved}
    (hcell : r.cellAt? target.address = some target.cell) (phase : Phase) :
    (mirroring r time time').Reads (.recorded ev) ((Access.recorded ev).shift u time') cx target
      phase := by
  have settles {phase : Phase} {rule : phase.Rule} (hrule : target.cell.rule? phase = some rule) :=
    mirroring_settle_outcome hev hreport hindex htime hcell hrule
  cases phase with
  | execution =>
    intro c hc
    have hcell := Resolved.operationCell_eq_ok_iff.2 hc
    have hcell' : (target.update u).operationCell = .ok c := target.operationCell_update.trans hcell
    have content := (mirroring r time time').bind (settles (Resolved.rule?_execution hcell))
      fun event => Correspondence.pure _ event.content
    rw [bind_assoc] at content
    change (mirroring r time time').Rel (executeCell ev cx target)
      (executeCell ev (cx.shift u time') (target.update u))
    rw [executeCell_eq hcell, executeCell_eq hcell']
    exact content
  | validation =>
    intro _
    change (mirroring r time time').Rel _ ((liftM (target.update u).rules >>= _) >>= _)
    rw [target.rules_update, bind_assoc]
    refine mirroring_recordsLocal.admits.lift (.rules target) fun rules hrules => ?_
    cases hchain : rules.validation with
    | none => exact Correspondence.pure _ _
    | some chain => exact settles ((Resolved.rule?_validation hrules).trans hchain)
  | availability =>
    intro _
    change (mirroring r time time').Rel _ ((liftM (target.update u).rules >>= _) >>= _)
    rw [target.rules_update, bind_assoc]
    refine mirroring_recordsLocal.admits.lift (.rules target) fun rules hrules => ?_
    cases hchain : rules.availability with
    | none => exact Correspondence.pure _ _
    | some chain => exact settles ((Resolved.rule?_availability hrules).trans hchain)

omit hreport hindex htime in
/-- Running a phase corresponds to running it over the updated report. -/
theorem mirroring_runPhase (hwf : r.WellFormed) (cx : Context) (hreport : cx.report = r)
    (hindex : cx.index = .build r) (htime : cx.time = time) :
    (mirroring r time time').Rel (runPhase ev cx) (runPhase ev (cx.shift u time')) := by
  have targets : (cx.shift u time').report.targets cx.phase =
      (cx.report.targets cx.phase).map (Resolved.update u) := Report.targets_update
  change (mirroring r time time').Rel (cx.phase.run _ cx (cx.report.targets cx.phase))
    (cx.phase.run _ (cx.shift u time') ((cx.shift u time').report.targets cx.phase))
  simp only [targets, Phase.run, List.forM_eq_forM, List.forM_map]
  refine Correspondence.forM _ fun target htarget => ?_
  obtain ⟨hmem, rule, hrule⟩ := Report.mem_targets_iff.1 htarget
  rw [← Phase.visit_shift]
  refine Correspondence.visit _ hrule (mirroring_reads hev hreport hindex htime ?_ cx.phase)
  exact (Report.mem_cells_iff hwf).1 (hreport ▸ hmem)

end Evaluations

/-- The induction is on the fuel. -/
theorem mirroring_evaluator {chain : ProtocolChain σ} (hchain : chain.IsBuiltin)
    (hwf : r.WellFormed) (hu : u.Unnoticed r) (fuel : Nat) (cx : Context) (op : Operation)
    (hreport : cx.report = r) (hindex : cx.index = .build r) (htime : cx.time = time)
    (hop : cx.Owns op) :
    (mirroring r time time').Rel ((chain.evaluator fuel).task cx op)
      ((chain.evaluator fuel).task (cx.shift u time') op) := by
  induction fuel generalizing cx op with
  | zero => exact fun _ _ h => ⟨_, _, _, rfl, rfl, h⟩
  | succ fuel ih =>
    refine Correspondence.dispatch mirroring_recordsLocal.admits trivial ?_
    intro protocol hprotocol
    obtain rfl := hchain _ _ hprotocol
    change (mirroring r time time').Rel (BuiltinRule.ofTag op.tag (.recorded _) cx op)
      (BuiltinRule.ofTag op.tag (.recorded _) (cx.shift u time') op)
    rw [← BuiltinRule.ofTag_shift (hreport ▸ hu) (hreport ▸ hwf) (hreport ▸ hindex) hop]
    refine Correspondence.rule (fun _ _ => trivial)
      (fun x hx => ih cx x hreport hindex htime (hop.operand hx))
      fun ref _ target htarget => mirroring_reads ih hreport hindex htime ?_ ref.phase
    exact hreport ▸ Context.InNode.cellAt?_eq htarget

end Task

/-! ## Passes -/

namespace ProtocolChain

variable {chain : ProtocolChain σ}

/-- A pass over the updated report as of another time mirrors the pass over the report. -/
theorem passTask_update_mirrors (hchain : chain.IsBuiltin) (hwf : r.WellFormed)
    (hu : u.Unnoticed r) (time time' : DateTime) (w w' : World σ) :
    ∃ result v v', (chain.passTask (.build r) time r).run w = (result, v) ∧
      (chain.passTask (.build r) time' (r.update u)).run w' = (result, v') ∧
        Journal.Mirrors r time time' v.journal v'.journal := by
  have phases : (Task.mirroring r time time').Rel
      (Phase.all.forM (chain.phaseTask (.build r) time r))
      (Phase.all.forM (chain.phaseTask (.build r) time' (r.update u))) := by
    refine Correspondence.forM _ fun phase _ => ?_
    have depth : (r.update u).evaluationDepth = r.evaluationDepth := Report.evaluationDepth_update
    unfold phaseTask
    rw [depth]
    exact Task.mirroring_runPhase (Task.mirroring_evaluator hchain hwf hu r.evaluationDepth) hwf
      (chain.context r (.build r) time phase) rfl rfl rfl
  have start : Journal.Mirrors r time time' (cleared r time w).journal
      (cleared (r.update u) time' w').journal := .of_clearLogs hwf passReason _ _
  rw [run_passTask, run_passTask]
  exact phases _ _ start

/-- Passes over reports that resemble each other mirror each other, whatever was recorded before. -/
theorem passTask_mirrors (hchain : chain.IsBuiltin) {r' : Report} (h : r.Resembles u r')
    (time time' : DateTime) (w w' : World σ) :
    ∃ result v v', (chain.passTask (.build r) time r).run w = (result, v) ∧
      (chain.passTask (.build r) time' r').run w' = (result, v') ∧
        Journal.Mirrors r time time' v.journal v'.journal := by
  have hwf := h.wellFormed
  have hwf' := h.wellFormed'
  obtain ⟨result, v, v₀, hrun, hrun₀, hmirrors⟩ :=
    passTask_update_mirrors hchain hwf h.unnoticed time time w w
  obtain ⟨result', v', v₀', hrun', hrun₀', hmirrors'⟩ :=
    passTask_update_mirrors hchain hwf' h.unnoticed' time' time w' w
  rw [← h.index_eq] at hrun' hrun₀'
  rw [← h.update_eq] at hrun₀'
  cases hrun₀.symm.trans hrun₀'
  have hmirrors' : Journal.Mirrors (r.update u) time' time v'.journal v₀.journal :=
    h.update_eq ▸ (Journal.Mirrors.update_iff hwf').2 hmirrors'
  have hmirrors' := (Journal.Mirrors.update_iff hwf).1 hmirrors'
  exact ⟨result, v, v', hrun, hrun', hmirrors.trans hmirrors'.symm⟩

end ProtocolChain

end ReportCalc
