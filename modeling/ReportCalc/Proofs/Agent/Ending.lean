import ReportCalc.Proofs.Agent.Termination
import ReportCalc.Proofs.Evaluation.Ending

/-!
# Evaluations and recalculations end

Nothing that an agent of an acyclic report evaluates with built-in protocols goes on forever: no
operation, no node and no recalculation (`Agent.evaluation_terminates`).
-/

namespace ReportCalc

variable {σ : Type}

namespace Agent

variable {agent : Agent} {options : RecalcOptions σ}

/-- The evaluator of a recalculation of the agent. -/
abbrev evaluator (agent : Agent) (options : RecalcOptions σ) (fuel : Nat) : Evaluator σ :=
  (protocolChain agent.config options).evaluator fuel

theorem recalcBy_ne_outOfFuel {pass : Pass σ} {time : DateTime} {host : σ}
    (hwf : agent.report.WellFormed)
    (hpass : ∀ s, Round.Reaches pass agent.config time (agent.firstRound host) s →
      (pass s.report s.world).1 ≠ .error .outOfFuel) :
    (agent.recalcBy pass time host).1 ≠ .error .outOfFuel := by
  cases hutc : time.isUtc with
  | false =>
    rw [recalcBy_of_not_utc hutc]
    exact nofun
  | true =>
    obtain ⟨s, e, hrun, hend, heq⟩ := recalcBy_ends hwf hutc pass host
    rw [heq]
    intro hout
    cases hend with
    | interrupted hinterrupted =>
      cases hout
      exact hpass s hrun (congrArg Prod.fst hinterrupted)
    | finished => cases hout
    | limited => cases hout

/-- Evaluation terminates on acyclic reports. Every operation in every context of the report ends,
in one go or as a task and whatever the journal and the phase, with fuel for its own weight and
that of the report; more fuel makes no difference. So does every execution, validation and
availability check of a cell, and no recalculation runs out of fuel. -/
theorem evaluation_terminates (hsources : options.sources = []) (hwf : agent.WellFormed)
    (hacyclic : agent.report.Acyclic) :
    (∀ (cx : Context) (op : Operation), cx.report = agent.report → cx.index = agent.index →
        EndsAt (op.weight + agent.report.evaluationDepth)
            (fun fuel => ((agent.evaluator options fuel).run cx op).run) ∧
          EndsAt (op.weight + agent.report.evaluationDepth)
            (fun fuel => ((agent.evaluator options fuel).task cx op).run)) ∧
      (∀ (cx : Context) (target : Resolved) (phase : Phase), cx.report = agent.report →
        cx.index = agent.index → agent.report.cellAt? target.address = some target.cell →
          EndsAt agent.report.evaluationDepth (fun fuel =>
              (phase.visit (.recorded (agent.evaluator options fuel).run) cx target).run) ∧
            EndsAt agent.report.evaluationDepth (fun fuel =>
              (phase.visit (.recorded (agent.evaluator options fuel).task) cx target).run)) ∧
      ∀ time host, (agent.recalc options time host).1 ≠ .error .outOfFuel ∧
        (agent.recalcTask options time host).1 ≠ .error .outOfFuel := by
  have hchain : (protocolChain agent.config options).IsBuiltin :=
    ProtocolChain.isBuiltin_protocolChain hsources
  have agrees : ∀ fuel, (agent.evaluator options fuel).Agrees :=
    ProtocolChain.agrees_protocolChain hsources
  refine ⟨fun cx op hreport hindex => ?_, fun cx target phase hreport hindex hcell => ?_,
    fun time host => ?_⟩
  · have hleads : cx.LeadsWithin op agent.report.evaluationDepth := hreport ▸
      Context.leadsWithin_evaluationDepth (hreport ▸ hwf.report) (hreport ▸ hacyclic)
    have htask : EndsAt (op.weight + agent.report.evaluationDepth)
        fun fuel => ((agent.evaluator options fuel).task cx op).run :=
      Task.endsAt_of_ending fun fuel hmore => ProtocolChain.evaluator_ending hchain hwf.report
        hacyclic hmore hreport (hindex.trans hwf.index) hleads (Nat.le_refl _)
    have same (fuel : Nat) : ((agent.evaluator options fuel).task cx op).run =
        ((agent.evaluator options fuel).run cx op).run := funext (agrees fuel cx op)
    exact ⟨by simpa only [same] using htask, htask⟩
  · have htask : EndsAt agent.report.evaluationDepth fun fuel =>
        (phase.visit (.recorded (agent.evaluator options fuel).task) cx target).run :=
      Task.endsAt_of_ending fun fuel hmore => ProtocolChain.visit_ending hchain hwf.report hacyclic
        hmore (Nat.le_refl _) hreport (hindex.trans hwf.index) hcell phase
    have same (fuel : Nat) :
        (phase.visit (.recorded (agent.evaluator options fuel).task) cx target).run =
          (phase.visit (.recorded (agent.evaluator options fuel).run) cx target).run :=
      funext <| Correspondence.visit_recorded Task.agreement_recordsLocal.admits fun _ _ =>
        Task.agreement_settles cx target <|
          Correspondence.outcome Task.agreement_recordsLocal fun x _ => agrees fuel _ x
    exact ⟨by simpa only [same] using htask, htask⟩
  · have hpass : (agent.recalc options time host).1 ≠ .error .outOfFuel :=
      recalcBy_ne_outOfFuel hwf.report fun _ =>
        recalcPass_ne_outOfFuel hsources hwf hacyclic
    refine ⟨hpass, ?_⟩
    rw [recalcTask, ProtocolChain.taskPass_eq_pass agrees]
    exact hpass

end Agent

namespace DisabledInput

def agent : Agent := .ofReport report .default

/-- Where the availability chain of the input is evaluated. -/
def checking : Context :=
  ((Agent.protocolChain .default (.none : RecalcOptions Unit)).context report agent.index ⟨0, 0⟩
    .availability).enter ⟨⟨position, 0, none⟩, .input discount⟩

/-- Reading the input from within the check of its availability ends, and so does the execution of
the cell that reads it, and the recalculation. -/
theorem evaluation_terminates_disabledInput :
    EndsAt (total.operation.weight + report.evaluationDepth) (fun fuel =>
        ((agent.evaluator (.none : RecalcOptions Unit) fuel).run checking total.operation).run) ∧
      EndsAt report.evaluationDepth (fun fuel => (Phase.execution.visit
        (.recorded (agent.evaluator (.none : RecalcOptions Unit) fuel).run) checking
          ⟨⟨position, 1, none⟩, .operation total⟩).run) ∧
      (agent.recalc .none ⟨0, 0⟩ ()).1 ≠ .error .outOfFuel := by
  obtain ⟨hoperations, hnodes, hrecalc⟩ := @Agent.evaluation_terminates Unit agent .none rfl
    (.ofReport wellFormed .default) acyclic
  exact ⟨(hoperations checking _ rfl rfl).1, (hnodes checking _ .execution rfl rfl rfl).1,
    (hrecalc ⟨0, 0⟩ ()).1⟩

end DisabledInput

end ReportCalc
