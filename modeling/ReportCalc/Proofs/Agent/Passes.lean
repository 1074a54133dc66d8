import ReportCalc.Proofs.Evaluation.Simulation

/-!
# Passes over an acyclic report

A phase that runs as a task keeps the invariant of the pass wherever it is suspended, and records in
logs of that phase only (`Context.simulation_visits`). When it ends, the logs of all cells that it
has visited are settled (`Context.follows_visits`), and this is what the next phase starts from. So
a pass that ends has settled every cell (`ProtocolChain.follows_of_run`).
-/

namespace ReportCalc

variable {σ : Type}

/-! ## Visits -/

/-- The log of a phase holds an outcome. -/
def Journal.HasOutcome (j : Journal) (phase : Phase) (a : CellAddress) : Prop :=
  ∃ e ∈ (j.logOf phase a).events, PassContent.isCleared e.content = false

namespace Journal

variable {j k : Journal} {phase : Phase} {a : CellAddress}

theorem HasOutcome.not_fresh (h : j.HasOutcome phase a) (time : DateTime) :
    ¬ j.Fresh time phase a := by
  intro hfresh
  obtain ⟨e, he, hcleared⟩ := h
  rw [hfresh, List.mem_singleton] at he
  rw [he, PassContent.marker, PassContent.isCleared_cleared] at hcleared
  cases hcleared

theorem HasOutcome.grows {s : Node → Prop} (h : j.HasOutcome phase a) (hgrows : j.Grows s k) :
    k.HasOutcome phase a := by
  obtain ⟨e, he, hcleared⟩ := h
  exact ⟨e, hgrows.prefix_log.subset he, hcleared⟩

theorem hasOutcome_of_settled? {cx : Context} {label : String} {event : Event phase.Outcome}
    (h : cx.settled? (j.log phase.logKind a) label = .ok (some event)) : j.HasOutcome phase a := by
  unfold Context.settled? at h
  split at h
  · cases h
  · next e hlast =>
    cases hcleared : PassContent.isCleared e.content with
    | true => simp [hcleared] at h
    | false => exact ⟨e, List.mem_of_getLast? hlast, hcleared⟩

end Journal

/-- Settling a cell leaves an outcome in its log. -/
theorem Task.hasOutcome_settle {phase : Phase} {cx : Context} {target : Resolved}
    {ev : Operation → Task σ Value} {rule : phase.Rule} {w w' : World σ}
    {event : Event phase.Outcome}
    (h : (settle phase.logKind cx target (phase.outcome ev rule)).run w = (.ok event, w')) :
    w'.journal.HasOutcome phase target.address := by
  rw [run_settle] at h
  split at h
  · cases h
  · next hfound =>
    cases h
    exact Journal.hasOutcome_of_settled? hfound
  · split at h
    · next outcome w₁ hrun =>
      cases h
      refine ⟨⟨cx.time, outcome⟩, ?_, isCleared_outcome (congrArg Prod.fst hrun)⟩
      rw [Journal.logOf, Journal.log_push]
      exact List.mem_append_right _ (List.mem_singleton_self _)
    · cases h

section Visit
variable {ev : Context → Operation → Task σ Value} {cx : Context}

/-- Visits that end leave an outcome for each cell that was visited, when each visit keeps an
invariant and lets the journal grow. The induction is on the cells: what an earlier visit has
settled stays so. -/
theorem Phase.hasOutcome_of_run {phase : Phase} {s : Node → Prop} {I : World σ → Prop}
    {targets : List Resolved} (hrules : ∀ t ∈ targets, ∃ rule, t.cell.rule? phase = some rule)
    (hvisit : ∀ t ∈ targets, ∀ w, I w → I ((phase.visit (.recorded ev) cx t).run w).2 ∧
      w.journal.Grows s ((phase.visit (.recorded ev) cx t).run w).2.journal)
    {w w' : World σ} (hw : I w) (h : (phase.run (.recorded ev) cx targets).run w = (.ok (), w')) :
    (∀ t ∈ targets, w'.journal.HasOutcome phase t.address) ∧ w.journal.Grows s w'.journal := by
  unfold Phase.run at h
  induction targets generalizing w with
  | nil =>
    cases h
    exact ⟨List.forall_mem_nil _, .refl _ _⟩
  | cons t rest ih =>
    obtain ⟨_, w₁, hfirst, hrest⟩ := Task.exists_of_run_bind h
    obtain ⟨hw₁, hgrows⟩ := hvisit t (List.mem_cons_self ..) w hw
    simp only [hfirst] at hw₁ hgrows
    obtain ⟨houtcomes, hgrows'⟩ := ih (fun u hu => hrules u (List.mem_cons_of_mem _ hu))
      (fun u hu => hvisit u (List.mem_cons_of_mem _ hu)) hw₁ hrest
    refine ⟨List.forall_mem_cons.2 ⟨?_, houtcomes⟩, hgrows.trans hgrows'⟩
    obtain ⟨rule, hrule⟩ := hrules t (List.mem_cons_self ..)
    rw [Phase.visit_eq hrule] at hfirst
    obtain ⟨event, w₂, hsettle, hw₂⟩ := Task.exists_of_run_bind hfirst
    cases hw₂
    exact (Task.hasOutcome_settle hsettle).grows hgrows'

end Visit

/-! ## Targets -/

theorem Phase.concerns_eq (phase : Phase) (cell : Cell) :
    phase.concerns cell = (cell.rule? phase).isSome := by
  cases phase with
  | execution => exact (Option.isSome_map ..).symm
  | validation => rfl
  | availability => rfl

theorem Report.mem_targets_iff {r : Report} {phase : Phase} {target : Resolved} :
    target ∈ r.targets phase ↔
      (target.address, target.cell) ∈ r.cells ∧ ∃ rule, target.cell.rule? phase = some rule := by
  rw [← Option.isSome_iff_exists, ← Phase.concerns_eq]
  constructor
  · intro h
    obtain ⟨e, he, rfl⟩ := List.mem_map.1 h
    exact List.mem_filter.1 he
  · exact fun h => List.mem_map.2 ⟨(target.address, target.cell), List.mem_filter.2 h, rfl⟩

/-! ## Phases -/

/-- Visits of a cell that takes part in the phase are related when the reads of its node are. -/
theorem Correspondence.visit {m n : Type → Type} [Interruptible m] [Interruptible n]
    (R : Correspondence m n) {access : Access m} {access' : Access n} {cx : Context}
    {target : Resolved} {rule : cx.phase.Rule} (hrule : target.cell.rule? cx.phase = some rule)
    (h : R.Reads access access' cx target cx.phase) :
    R.Rel (cx.phase.visit access cx target) (cx.phase.visit access' cx target) := by
  generalize hphase : cx.phase = phase at rule hrule h
  cases phase with
  | execution =>
    obtain ⟨c, hc, -⟩ := Resolved.exists_operation_of_rule? hrule
    exact R.bind (h c hc) fun _ => R.pure ()
  | validation => exact R.bind (h (by rw [hphase]; exact nofun)) fun _ => R.pure ()
  | availability => exact R.bind (h hphase) fun _ => R.pure ()

namespace Context

section Phases
variable {base cx : Context} {ev : Context → Operation → Task σ Value} {fuel : Nat}
  (hacyclic : base.report.Acyclic) (hwf : base.report.WellFormed) (hev : base.Evaluates ev fuel)
  (hcx : base.Within cx)
include hacyclic hwf hev hcx

/-- A visit corresponds to one without a journal, and records for this phase only. -/
theorem simulation_visit {target : Resolved} (htarget : target ∈ base.report.targets cx.phase)
    (l : Nat) :
    (base.simulation cx.phase.rank (·.phase = cx.phase) (fuel < l)).Rel
      (cx.phase.visit (.recorded ev) cx target)
      (cx.phase.visit (Plain.access (Plain.evaluate l)) cx target) := by
  obtain ⟨hmem, rule, hrule⟩ := Report.mem_targets_iff.1 htarget
  have hcell := (Report.mem_cells_iff hwf).1 hmem
  refine Correspondence.visit _ hrule
    (simulation_reads hacyclic hev hcx hcell (fun _ => ?_) l)
  exact ⟨rfl, fun _ hm => hm.2⟩

/-- Visits of cells that take part in the phase correspond to visits without a journal. -/
theorem simulation_visits {targets : List Resolved}
    (htargets : ∀ t ∈ targets, t ∈ base.report.targets cx.phase) (l : Nat) :
    (base.simulation cx.phase.rank (·.phase = cx.phase) (fuel < l)).Rel
      (cx.phase.run (.recorded ev) cx targets)
      (cx.phase.run (Plain.access (Plain.evaluate l)) cx targets) :=
  Correspondence.forM _ fun t ht => simulation_visit hacyclic hwf hev hcx (htargets t ht) l

/-- Visits that end have settled all cells that take part in the phase when they were to all of
them. -/
theorem follows_visits {targets : List Resolved}
    (htargets : ∀ t, t ∈ targets ↔ t ∈ base.report.targets cx.phase) {w w' : World σ}
    (hw : base.Follows cx.phase.rank w.journal)
    (h : (cx.phase.run (.recorded ev) cx targets).run w = (.ok (), w')) :
    base.Follows (cx.phase.rank + 1) w'.journal := by
  have hsub := fun t => (htargets t).1
  have hfollows : base.Follows cx.phase.rank w'.journal := by
    simpa only [h] using (simulation_visits hacyclic hwf hev hcx hsub 0 w hw).follows_run
  obtain ⟨houtcomes, -⟩ := Phase.hasOutcome_of_run
    (fun t ht => (Report.mem_targets_iff.1 (hsub t ht)).2) (fun t ht w hw =>
      have hsim := simulation_visit hacyclic hwf hev hcx (hsub t ht) 0 w hw
      ⟨hsim.follows_run, hsim.grows_run⟩) hw h
  refine ⟨hfollows.fresh, fun {a cell phase rule} hcell hrule => ?_⟩
  refine (hfollows.recorded hcell hrule).imp_right fun ⟨hrank, hfresh⟩ => ⟨?_, hfresh⟩
  -- a log of this phase that is still fresh would belong to a cell that has been visited
  have hne : phase ≠ cx.phase := by
    rintro rfl
    have htarget : ⟨a, cell⟩ ∈ targets :=
      (htargets _).2 (Report.mem_targets_iff.2 ⟨(Report.mem_cells_iff hwf).2 hcell, rule, hrule⟩)
    exact (houtcomes _ htarget).not_fresh _ hfresh
  exact Nat.lt_of_le_of_ne hrank fun heq => hne (Phase.rank_injective heq.symm)

end Phases

/-! ## The start of a pass -/

theorem follows_clearLogs {base : Context} (hwf : base.report.WellFormed) (j : Journal) :
    base.Follows 0 (j.clearLogs base.report passReason base.time) := by
  have fresh {a : CellAddress} {cell : Cell} {phase : Phase}
      (hcell : base.report.cellAt? a = some cell) (hlog : cell.hasLog phase = true) :
      (j.clearLogs base.report passReason base.time).Fresh base.time phase a :=
    congrArg EventLog.events (Journal.logOf_clearLogs ((Report.mem_cells_iff hwf).2 hcell) hlog)
  exact ⟨fun hcell hlog _ => fresh hcell hlog,
    fun hcell hrule => .inr ⟨Nat.zero_le _, fresh hcell (Cell.hasLog_of_rule? hrule)⟩⟩

end Context

/-! ## Runs of phases -/

/-- Where phases begin that run one after the other: each in the world that the one before has left
when it ended. -/
inductive Phase.Begins (phases : Phase → Task σ Unit) (w : World σ) : Phase → World σ → Prop
  | first : Begins phases w .execution w
  | next {p q : Phase} {w₁ w₂ : World σ} (h : Begins phases w p w₁)
      (hrun : (phases p).run w₁ = (.ok (), w₂)) (hnext : q.rank = p.rank + 1) : Begins phases w q w₂

namespace Phase

variable {phases : Phase → Task σ Unit} {w w' : World σ}

theorem Begins.after {p q : Phase} {start : World σ} (h : Begins phases w p start) {a : Unit}
    (hrun : ((phases p).run start).1 = .ok a) (hnext : q.rank = p.rank + 1) :
    Begins phases w q ((phases p).run start).2 := .next h (Prod.ext hrun rfl) hnext

/-- Wherever phases may be suspended, one of them is under way. -/
theorem exists_begins_of_mem_trace (h : w' ∈ (Phase.all.forM phases).trace w) :
    ∃ phase start, Begins phases w phase start ∧ w' ∈ (phases phase).trace start := by
  rcases Task.mem_trace_bind h with h | ⟨_, hexecution, h⟩
  · exact ⟨_, _, .first, h⟩
  have hvalidation : Begins phases w .validation _ := .after .first hexecution rfl
  rcases Task.mem_trace_bind h with h | ⟨_, hrun, h⟩
  · exact ⟨_, _, hvalidation, h⟩
  have havailability : Begins phases w .availability _ := hvalidation.after hrun rfl
  rcases Task.mem_trace_bind h with h | ⟨_, hrun, h⟩
  · exact ⟨_, _, havailability, h⟩
  · cases List.mem_singleton.1 h
    exact ⟨_, _, havailability, Task.run_mem_trace _ _⟩

/-- Phases that are interrupted are so in one of them. -/
theorem exists_begins_of_run_error {i : Interrupt}
    (h : (Phase.all.forM phases).run w = (.error i, w')) :
    ∃ phase start, Begins phases w phase start ∧ (phases phase).run start = (.error i, w') := by
  rcases Task.error_of_run_bind h with h | ⟨_, _, hexecution, h⟩
  · exact ⟨_, _, .first, h⟩
  have hvalidation : Begins phases w .validation _ := .next .first hexecution rfl
  rcases Task.error_of_run_bind h with h | ⟨_, _, hrun, h⟩
  · exact ⟨_, _, hvalidation, h⟩
  have havailability : Begins phases w .availability _ := .next hvalidation hrun rfl
  rcases Task.error_of_run_bind h with h | ⟨_, _, -, h⟩
  · exact ⟨_, _, havailability, h⟩
  · cases h

/-- Phases that end have all run, the last one from where it began. -/
theorem exists_begins_of_run (h : (Phase.all.forM phases).run w = (.ok (), w')) :
    ∃ start, Begins phases w .availability start ∧
      (phases .availability).run start = (.ok (), w') := by
  obtain ⟨_, w₁, hexecution, h⟩ := Task.exists_of_run_bind h
  obtain ⟨_, w₂, hvalidation, h⟩ := Task.exists_of_run_bind h
  obtain ⟨_, w₃, havailability, h⟩ := Task.exists_of_run_bind h
  cases h
  exact ⟨w₂, .next (.next .first hexecution rfl) hvalidation rfl, havailability⟩

end Phase

/-! ## Passes -/

namespace ProtocolChain

variable {chain : ProtocolChain σ} {index : ReportIndex} {time : DateTime} {report : Report}
  {phase : Phase} {w w' start : World σ}

/-- A phase of a pass as a task. -/
def phaseTask (chain : ProtocolChain σ) (index : ReportIndex) (time : DateTime) (report : Report)
    (phase : Phase) : Task σ Unit :=
  runPhase (chain.evaluator report.evaluationDepth).task (chain.context report index time phase)

/-- A pass as a task. -/
def passTask (chain : ProtocolChain σ) (index : ReportIndex) (time : DateTime) (report : Report) :
    Task σ Unit :=
  runPass (chain.evaluator report.evaluationDepth).task report time
    (chain.context report index time)

/-- The world in which the phases of a pass begin: the logs of the report are started anew. -/
def cleared (report : Report) (time : DateTime) (w : World σ) : World σ :=
  { w with journal := w.journal.clearLogs report passReason time }

theorem run_passTask : (chain.passTask index time report).run w =
    (Phase.all.forM (chain.phaseTask index time report)).run (cleared report time w) := rfl

theorem trace_passTask : (chain.passTask index time report).trace w =
    w :: (Phase.all.forM (chain.phaseTask index time report)).trace (cleared report time w) := rfl

theorem run_mem_tail_trace (chain : ProtocolChain σ) (index : ReportIndex) (time : DateTime)
    (report : Report) (w : World σ) :
    ((chain.passTask index time report).run w).2 ∈
      ((chain.passTask index time report).trace w).tail :=
  Task.run_mem_trace (Phase.all.forM (chain.phaseTask index time report)) (cleared report time w)

section Builtin
variable (hchain : chain.IsBuiltin) (hwf : report.WellFormed) (hacyclic : report.Acyclic)
  (hindex : index = .build report)
include hchain hwf hacyclic hindex

/-- A phase of a pass corresponds to visiting its cells without a journal. -/
theorem simulation_phaseTask (phase : Phase) (l : Nat) :
    ((chain.context report index time .execution).simulation phase.rank (·.phase = phase)
      (report.evaluationDepth < l)).Rel (chain.phaseTask index time report phase)
      (phase.run (Plain.access (Plain.evaluate l)) (chain.context report index time phase)
        (report.targets phase)) :=
  have hcx : (chain.context report index time .execution).Within
    (chain.context report index time phase) := rfl
  Context.simulation_visits hacyclic hwf
    (Context.evaluator_simulates hacyclic hindex rfl hchain _) hcx (fun _ ht => ht) l

theorem follows_phaseTask
    (hw : (chain.context report index time .execution).Follows phase.rank w.journal)
    (h : (chain.phaseTask index time report phase).run w = (.ok (), w')) :
    (chain.context report index time .execution).Follows (phase.rank + 1) w'.journal :=
  have hcx : (chain.context report index time .execution).Within
    (chain.context report index time phase) := rfl
  Context.follows_visits hacyclic hwf
    (Context.evaluator_simulates hacyclic hindex rfl hchain _) hcx (fun _ => .rfl) hw h

/-- Where a phase begins, the ones before are done. -/
theorem follows_of_begins
    (h : Phase.Begins (chain.phaseTask index time report) (cleared report time w) phase start) :
    (chain.context report index time .execution).Follows phase.rank start.journal := by
  induction h with
  | first => exact Context.follows_clearLogs hwf _
  | next _ hrun hnext ih =>
    rw [hnext]
    exact follows_phaseTask hchain hwf hacyclic hindex ih hrun

/-- Wherever a pass may be suspended once it has cleared the logs, a phase is under way. The ones
before are done, and since this one began only outcomes of it have been recorded. -/
theorem exists_begins_of_mem_tail (h : w' ∈ ((chain.passTask index time report).trace w).tail) :
    ∃ phase start,
      Phase.Begins (chain.phaseTask index time report) (cleared report time w) phase start ∧
        w' ∈ (chain.phaseTask index time report phase).trace start ∧
          (chain.context report index time .execution).Follows phase.rank w'.journal ∧
            start.journal.Grows (·.phase = phase) w'.journal := by
  rw [trace_passTask, List.tail_cons] at h
  obtain ⟨phase, start, hbegins, hmem⟩ := Phase.exists_begins_of_mem_trace h
  have hsim := simulation_phaseTask hchain hwf hacyclic hindex phase 0 start
    (follows_of_begins hchain hwf hacyclic hindex hbegins)
  exact ⟨phase, start, hbegins, hmem, hsim.follows w' hmem, hsim.grows w' hmem⟩

/-- A pass that ends has settled all cells. -/
theorem follows_of_run (h : (chain.passTask index time report).run w = (.ok (), w')) :
    (chain.context report index time .execution).Follows 3 w'.journal := by
  rw [run_passTask] at h
  obtain ⟨start, hbegins, hrun⟩ := Phase.exists_begins_of_run h
  exact follows_phaseTask hchain hwf hacyclic hindex
    (follows_of_begins hchain hwf hacyclic hindex hbegins) hrun

end Builtin

end ProtocolChain

end ReportCalc
