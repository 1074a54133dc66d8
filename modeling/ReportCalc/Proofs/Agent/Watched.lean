import ReportCalc.Proofs.Agent.Outcomes
import ReportCalc.Proofs.Evaluation.Observing

/-!
# Recalculations under watch

A recalculation whose evaluations are under watch does what the recalculation does
(`Agent.recalc_eq_watched`). Over any report and whatever the logs held before, a pass under watch
ends without having seen a fatal failure (`ProtocolChain.calm_of_run`), or it is interrupted then
and there by every one that it has seen (`ProtocolChain.prevails_of_run`), and so is the
recalculation (`Agent.prevails_of_watched`).
-/

namespace ReportCalc

variable {σ τ α β : Type}

/-! ## Phases and passes -/

namespace ProtocolChain

/-- A phase of a pass under watch. -/
def watchedPhase (chain : ProtocolChain σ) (index : ReportIndex) (time : DateTime)
    (report : Report) (phase : Phase) : Task Watch Unit :=
  runPhase (Watch.evaluate report.evaluationDepth) (chain.context report index time phase)

/-- A pass under watch. -/
def watchedTask (chain : ProtocolChain σ) (index : ReportIndex) (time : DateTime)
    (report : Report) : Task Watch Unit :=
  runPass (Watch.evaluate report.evaluationDepth) report time (chain.context report index time)

def watchedPass (chain : ProtocolChain σ) (index : ReportIndex) (time : DateTime) : Pass Watch :=
  fun report w => (chain.watchedTask index time report).run w

end ProtocolChain

/-- No evaluation is under way, and none has failed fatally. -/
structure Watch.Calm (watch : Watch) : Prop where
  pending : watch.pending = []
  failures : ∀ f ∈ watch.failures, f.error.isFatal = false

theorem Watch.calm_start : Watch.start.Calm := ⟨rfl, List.forall_mem_nil _⟩

namespace Context

variable {base cx : Context}

/-- What ends with a value has seen no fatal failure. -/
theorem Observes.calm {done : Nat} {s : Node → Prop} {y : Fueled α} {w w' : World Watch} {a : α}
    (h : base.Observes done s y w (.ok a) w') (hw : w.host.Calm) : w'.host.Calm where
  pending := h.pending.trans hw.pending
  failures f hf := by
    cases hlocal : f.error.isFatal with
    | false => rfl
    | true =>
      rcases h.failures f hf hlocal with hf | hends
      · exact hlocal.symm.trans (hw.failures f hf)
      · cases hends.result

/-- No node that fails has an outcome. -/
theorem Confirms.not_hasOutcome {done : Nat} {j : Journal} {n : Node} {e : EvaluationError}
    (h : base.Confirms done j) (hfails : base.Fails n e) : ¬ j.HasOutcome n.phase n.address := by
  obtain ⟨cell, rule, hcell, hrule, hgives⟩ := hfails
  obtain ⟨outcomes, hevents, houtcomes, -⟩ := h.recorded hcell hrule
  cases outcomes with
  | nil => exact fun houtcome => houtcome.not_fresh base.time hevents
  | cons o rest =>
    have hok := (houtcomes o (List.mem_cons_self ..)).2
    cases hgives.unique hok

/-- A phase of which all nodes have an outcome is done. -/
theorem Confirms.next {phase : Phase} {j : Journal} (h : base.Confirms phase.rank j)
    (houtcome : ∀ a cell rule, base.report.cellAt? a = some cell → cell.rule? phase = some rule →
      j.HasOutcome phase a) : base.Confirms (phase.rank + 1) j := by
  constructor
  intro a cell p rule hcell hrule
  obtain ⟨outcomes, hevents, houtcomes, hdone⟩ := h.recorded hcell hrule
  refine ⟨outcomes, hevents, houtcomes, fun hrank hnone => ?_⟩
  rcases Nat.lt_or_eq_of_le (Nat.le_of_lt_succ hrank) with hbefore | hsame
  · exact hdone hbefore hnone
  · cases Phase.rank_injective hsame
    subst hnone
    exact (houtcome a cell rule hcell hrule).not_fresh base.time hevents

section Phases
variable (hwf : base.report.WellFormed) (hcx : base.Within cx) (fuel : Nat)
include hwf hcx

theorem observing_visit {target : Resolved} (htarget : target ∈ base.report.targets cx.phase) :
    (observing base cx.phase.rank fun _ => False).Rel
      (cx.phase.visit (.recorded (Watch.evaluate fuel)) cx target)
      (cx.phase.visit (Plain.access Plain.limit) cx target) := by
  obtain ⟨hmem, rule, hrule⟩ := Report.mem_targets_iff.1 htarget
  exact Correspondence.visit _ hrule
    (observing_reads (evaluate_observed base fuel) hcx ((Report.mem_cells_iff hwf).1 hmem))

theorem observing_phase :
    (observing base cx.phase.rank fun _ => False).Rel (runPhase (Watch.evaluate fuel) cx)
      (cx.phase.run (Plain.access Plain.limit) cx (base.report.targets cx.phase)) := by
  unfold runPhase
  rw [hcx.report_eq]
  exact Correspondence.forM _ fun target htarget => observing_visit hwf hcx fuel htarget

variable {fuel}

/-- A phase that ends is done. -/
theorem confirms_of_run {w w' : World Watch} (hw : base.Confirms cx.phase.rank w.journal)
    (h : (runPhase (Watch.evaluate fuel) cx).run w = (.ok (), w')) :
    base.Confirms (cx.phase.rank + 1) w'.journal := by
  have hobserves := observing_phase hwf hcx fuel w hw
  rw [h] at hobserves
  unfold runPhase at h
  rw [hcx.report_eq] at h
  obtain ⟨houtcomes, -⟩ := Phase.hasOutcome_of_run
    (fun t ht => (Report.mem_targets_iff.1 ht).2) (fun t ht w hw =>
      have hvisit := observing_visit hwf hcx fuel ht w hw
      ⟨hvisit.confirms, hvisit.grows⟩) hw h
  refine hobserves.confirms.next fun a cell rule hcell hrule => ?_
  exact houtcomes ⟨a, cell⟩
    (Report.mem_targets_iff.2 ⟨(Report.mem_cells_iff hwf).2 hcell, rule, hrule⟩)

end Phases

end Context

/-- The failure ends what goes on: that has its error, nothing has been recorded since, and no node
that was pending has an outcome. -/
structure Failure.Prevails (f : Failure) (r : Except Interrupt α) (j : Journal) : Prop where
  result : r = .error (.error f.error)
  journal : j = f.journal
  pending : ∀ n ∈ f.pending, ¬ j.HasOutcome n.phase n.address

theorem Failure.Prevails.error {f : Failure} {i : Interrupt} {j : Journal}
    (h : f.Prevails (.error i : Except Interrupt α) j) :
    f.Prevails (.error i : Except Interrupt β) j :=
  { h with result := congrArg _ (Except.error.inj h.result) }

namespace ProtocolChain

variable {chain : ProtocolChain σ} {index : ReportIndex} {time : DateTime} {report : Report}
  {phase : Phase} {w w' start : World Watch}

theorem run_watchedTask : (chain.watchedTask index time report).run w =
    (Phase.all.forM (chain.watchedPhase index time report)).run (cleared report time w) := rfl

/-- A fatal error that interrupts a pass under watch has been seen, unless it is about the logs. -/
theorem noted_of_run {e : EvaluationError} (hfatal : e.isFatal = true)
    (h : (chain.watchedTask index time report).run w = (.error (.error e), w')) :
    e.isMismatch = true ∨ ∃ f ∈ w'.host.failures, f.error = e := by
  have hnoted := Watch.noting_runPass report.evaluationDepth report time
    (chain.context report index time) w e
  unfold watchedTask at h
  rw [h] at hnoted
  exact hnoted rfl hfatal

section Observed
variable (hwf : report.WellFormed)
include hwf

theorem observing_watchedPhase
    (hw : (chain.context report index time .execution).Confirms phase.rank w.journal) :
    (chain.context report index time .execution).Observes phase.rank (fun _ => False)
      (phase.run (Plain.access Plain.limit) (chain.context report index time phase)
        (report.targets phase)) w
      ((chain.watchedPhase index time report phase).run w).1
      ((chain.watchedPhase index time report phase).run w).2 :=
  have hcx : (chain.context report index time .execution).Within
    (chain.context report index time phase) := rfl
  Context.observing_phase hwf hcx _ w hw

variable (hw : w.host.Calm)
include hw

/-- Where a phase begins, the ones before are done, and no evaluation has failed fatally. -/
theorem calm_of_begins
    (h : Phase.Begins (chain.watchedPhase index time report) (cleared report time w) phase start) :
    (chain.context report index time .execution).Confirms phase.rank start.journal ∧
      start.host.Calm := by
  induction h with
  | first => exact ⟨Context.confirms_clearLogs hwf _, hw⟩
  | @next p q w₁ w₂ _ hrun hnext ih =>
    have hcx : (chain.context report index time .execution).Within
      (chain.context report index time p) := rfl
    have hobserves := observing_watchedPhase hwf ih.1
    rw [hrun] at hobserves
    rw [hnext]
    exact ⟨Context.confirms_of_run hwf hcx ih.1 hrun, hobserves.calm ih.2⟩

/-- A pass under watch that ends has seen no fatal failure. -/
theorem calm_of_run (h : (chain.watchedTask index time report).run w = (.ok (), w')) :
    w'.host.Calm := by
  rw [run_watchedTask] at h
  obtain ⟨start, hbegins, hrun⟩ := Phase.exists_begins_of_run h
  obtain ⟨hconfirms, hcalm⟩ := calm_of_begins hwf hw hbegins
  have hobserves := observing_watchedPhase hwf hconfirms
  rw [hrun] at hobserves
  exact hobserves.calm hcalm

/-- What interrupts a pass under watch is no other fatal error than a structural one that has been
seen, and every fatal failure that is seen. -/
theorem prevails_of_run {i : Interrupt}
    (h : (chain.watchedTask index time report).run w = (.error i, w')) :
    (∀ e, i = .error e → e.isFatal = true →
        e.isStructural = true ∧ ∃ f ∈ w'.host.failures, f.error = e) ∧
      ∀ f ∈ w'.host.failures, f.error.isFatal = true →
        f.Prevails (.error i : Except Interrupt Unit) w'.journal := by
  have hnoted : ∀ e, i = .error e → e.isFatal = true →
      e.isMismatch = true ∨ ∃ f ∈ w'.host.failures, f.error = e := by
    rintro e rfl hfatal
    exact noted_of_run hfatal h
  rw [run_watchedTask] at h
  obtain ⟨phase, start, hbegins, hrun⟩ := Phase.exists_begins_of_run_error h
  obtain ⟨hconfirms, hcalm⟩ := calm_of_begins hwf hw hbegins
  have hobserves := observing_watchedPhase hwf hconfirms
  rw [hrun] at hobserves
  refine ⟨fun e he hfatal => ?_, fun f hf hfatal => ?_⟩
  · have hstructural := hobserves.structural e (congrArg _ he) hfatal
    refine ⟨hstructural, (hnoted e he hfatal).resolve_left fun hmismatch => ?_⟩
    cases (EvaluationError.isMismatch_of_isStructural hstructural).symm.trans hmismatch
  · rcases hobserves.failures f hf hfatal with hf | hends
    · cases (hcalm.failures f hf).symm.trans hfatal
    · refine ⟨hends.result, hends.journal, fun n hn => ?_⟩
      refine hobserves.confirms.not_hasOutcome ((hends.pending n hn).resolve_left ?_)
      rw [hcalm.pending]
      exact fun hpending => hpending.elim List.not_mem_nil id

end Observed

end ProtocolChain

/-! ## Forgetting the watch -/

/-- The first pass does to the journal what the second does, whatever the states of their hosts are,
and the second leaves its host as it is. -/
def Pass.Watches (pass : Pass τ) (pass' : Pass σ) : Prop :=
  ∀ report j host host', (pass report ⟨j, host⟩).1 = (pass' report ⟨j, host'⟩).1 ∧
    (pass report ⟨j, host⟩).2.journal = (pass' report ⟨j, host'⟩).2.journal ∧
      (pass' report ⟨j, host'⟩).2.host = host'

theorem ProtocolChain.watchedPass_watches {chain : ProtocolChain σ} (hchain : chain.IsBuiltin)
    (index : ReportIndex) (time : DateTime) :
    Pass.Watches (chain.watchedPass index time) fun report w =>
      (chain.passTask index time report).run w := fun report =>
  Correspondence.runPass Watch.forgetting_settles Watch.forgetting_recordsLocal
    (s := fun cx => cx.knows = chain.knows) (Watch.evaluator_forgets hchain _) report time
    (fun _ _ => rfl) fun _ _ _ _ => ⟨rfl, rfl, rfl⟩

/-- The induction is on the rounds. -/
theorem recalcRounds_watches {pass : Pass τ} {pass' : Pass σ} (h : Pass.Watches pass pass')
    (config : Config) (time : DateTime) (host' : σ) (rounds : Nat) (report : Report) (j : Journal)
    (host : τ) (summary : RecalcSummary) :
    let done := recalcRounds pass config time rounds report ⟨j, host⟩ summary
    let done' := recalcRounds pass' config time rounds report ⟨j, host'⟩ summary
    done.result = done'.result ∧ done.report = done'.report ∧
      done.world.journal = done'.world.journal ∧ done'.world.host = host' := by
  induction rounds generalizing report j host summary with
  | zero => exact ⟨rfl, rfl, rfl, rfl⟩
  | succ rounds ih =>
    obtain ⟨hresult, hjournal, hhost⟩ := h report j host host'
    simp only [recalcRounds]
    generalize pass report ⟨j, host⟩ = p at hresult hjournal
    generalize pass' report ⟨j, host'⟩ = q at hresult hjournal hhost
    obtain ⟨r, k, host₁⟩ := p
    obtain ⟨r', k', host₁'⟩ := q
    cases hresult
    cases hjournal
    cases hhost
    cases r with
    | error i => exact ⟨rfl, rfl, rfl, rfl⟩
    | ok _ =>
      simp only
      split
      · exact ⟨rfl, rfl, rfl, rfl⟩
      · split
        · exact ⟨rfl, rfl, rfl, rfl⟩
        · exact ih ..

/-! ## Recalculations -/

namespace Agent

variable {agent : Agent} {options : RecalcOptions σ} {time : DateTime}

/-- A recalculation with built-in protocols whose evaluations are under watch. -/
def watchedRecalc (agent : Agent) (options : RecalcOptions σ) (time : DateTime) :
    Except Interrupt RecalcSummary × Agent × Watch :=
  agent.recalcBy ((protocolChain agent.config options).watchedPass agent.index time) time .start

/-- A recalculation under watch does what the recalculation does. -/
theorem recalc_eq_watched (hsources : options.sources = []) (host : σ) :
    agent.recalc options time host =
      ((agent.watchedRecalc options time).1, (agent.watchedRecalc options time).2.1, host) := by
  unfold recalc watchedRecalc recalcBy
  cases time.ensureUtc with
  | error e => rfl
  | ok _ =>
    have hchain : (protocolChain agent.config options).IsBuiltin :=
      ProtocolChain.isBuiltin_protocolChain hsources
    rw [ProtocolChain.pass_eq hsources]
    obtain ⟨hresult, hreport, hjournal, hhost⟩ := recalcRounds_watches
      (ProtocolChain.watchedPass_watches hchain agent.index time) agent.config time host
      (agent.report.heldInputs + 1) agent.report agent.journal .start ⟨0, [], []⟩
    simp only [hresult, hreport, hjournal, hhost]

end Agent

/-- Rounds under watch that are followed by others have seen no fatal failure. -/
theorem Round.calm_of_reaches {chain : ProtocolChain σ} {index : ReportIndex} {config : Config}
    {time : DateTime} {s t : Round Watch} (hwf : s.report.WellFormed) (hs : s.world.host.Calm)
    (h : Reaches (chain.watchedPass index time) config time s t) :
    t.report.WellFormed ∧ t.world.host.Calm := by
  induction h with
  | refl => exact ⟨hwf, hs⟩
  | tail _ hst ih =>
    refine ⟨wellFormed_of_reruns ih.1 hst, ?_⟩
    rcases hst with ⟨hpass, -, -⟩
    exact ProtocolChain.calm_of_run ih.1 ih.2 hpass

namespace Agent

variable {agent : Agent} {options : RecalcOptions σ} {time : DateTime}

/-- As of a time in UTC, a recalculation fails with no other fatal error than a structural one that
has been seen or that of the limit on its passes. Every fatal failure that is seen in it ends it. -/
theorem prevails_of_watched (hwf : agent.report.WellFormed) (hutc : time.isUtc = true) :
    (∀ e, (agent.watchedRecalc options time).1 = .error (.error e) → e.isFatal = true →
        (e.isStructural = true ∧
            ∃ f ∈ (agent.watchedRecalc options time).2.2.failures, f.error = e) ∨
          ∃ limit, e = .rerunLimitExceeded limit) ∧
      ∀ f ∈ (agent.watchedRecalc options time).2.2.failures, f.error.isFatal = true →
        f.Prevails (agent.watchedRecalc options time).1
          (agent.watchedRecalc options time).2.1.journal := by
  obtain ⟨s, done, hrun, hend, heq⟩ := recalcBy_ends hwf hutc
    ((protocolChain agent.config options).watchedPass agent.index time) Watch.start
  rw [watchedRecalc, heq]
  obtain ⟨hwf', hcalm⟩ := Round.calm_of_reaches hwf Watch.calm_start hrun
  cases hend with
  | @interrupted i w hpass =>
    obtain ⟨hstructural, hprevails⟩ := ProtocolChain.prevails_of_run hwf' hcalm hpass
    exact ⟨fun e he hfatal => .inl (hstructural e (Except.error.inj he) hfatal),
      fun f hf hfatal => (hprevails f hf hfatal).error⟩
  | finished hpass =>
    refine ⟨fun e he => (nomatch he), fun f hf hfatal => ?_⟩
    have hcalm' := ProtocolChain.calm_of_run hwf' hcalm hpass
    cases (hcalm'.failures f hf).symm.trans hfatal
  | limited hpass =>
    refine ⟨fun e he _ => ?_, fun f hf hfatal => ?_⟩
    · cases he
      exact .inr ⟨_, rfl⟩
    · have hcalm' := ProtocolChain.calm_of_run hwf' hcalm hpass
      cases (hcalm'.failures f hf).symm.trans hfatal

end Agent

end ReportCalc
