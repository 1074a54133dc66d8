import ReportCalc.Proofs.Agent.Clearing
import ReportCalc.Proofs.Agent.Passes
import ReportCalc.Proofs.Evaluation.Failures
import ReportCalc.Proofs.Evaluation.Suspension

/-!
# What a recalculation records

With built-in protocols, a recalculation of an acyclic report records every outcome at most once in
a pass and in its own phase (`Agent.recalc_records_once`), and when it succeeds, what it has
recorded is what the plain evaluation gives on the inputs that are left (`Agent.recalc_refines`).
Both follow from the invariant of a pass, for the last pass of the run.
-/

namespace ReportCalc

variable {σ : Type}

/-! ## Agents -/

/-- The report of the agent is well-formed, and the index is the one of the report. -/
structure Agent.WellFormed (agent : Agent) : Prop where
  report : agent.report.WellFormed
  index : agent.index = .build agent.report

theorem Agent.WellFormed.ofReport {report : Report} (h : report.WellFormed) (config : Config) :
    (Agent.ofReport report config).WellFormed := ⟨h, rfl⟩

namespace ProtocolChain

variable {config : Config} {options : RecalcOptions σ}

theorem isBuiltin_protocolChain (h : options.sources = []) :
    (Agent.protocolChain config options).IsBuiltin := by
  rw [Agent.protocolChain, h]
  exact isBuiltin_withBuiltins _

/-- Without protocols of the host, both ways to evaluate an operation agree. -/
theorem agrees_protocolChain (h : options.sources = []) (fuel : Nat) :
    ((Agent.protocolChain config options).evaluator fuel).Agrees := by
  have agrees : (Agent.protocolChain config options).HostAgrees options.sources := by
    rw [h]
    exact List.forall_mem_nil _
  exact evaluator_agrees agrees fuel

/-- Without protocols of the host, a pass does what its task does. -/
theorem pass_eq (h : options.sources = []) (index : ReportIndex) (time : DateTime) :
    (Agent.protocolChain config options).pass index time = fun report w =>
      ((Agent.protocolChain config options).passTask index time report).run w :=
  (taskPass_eq_pass (agrees_protocolChain h) index time).symm

end ProtocolChain

/-- The rounds of a recalculation keep the report as it is, up to what its inputs hold. -/
theorem Round.report_of_reaches {pass : Pass σ} {config : Config} {time : DateTime}
    {start s : Round σ} (hwf : start.report.WellFormed) (hacyclic : start.report.Acyclic)
    (hrun : Reaches pass config time start s) :
    s.report.WellFormed ∧ s.report.Acyclic ∧
      ReportIndex.build s.report = .build start.report := by
  obtain ⟨cleared, hcleared, -⟩ := exists_clearedInputs hwf hrun
  rw [hcleared.report_eq]
  exact ⟨hwf.update, hacyclic.update hwf, ReportIndex.build_update⟩

/-! ## The logs of a pass -/

namespace Journal

/-- Every log of every cell holds the marker of the pass, and nothing else or one outcome. -/
def RecordsOnce (j : Journal) (report : Report) (time : DateTime) : Prop :=
  ∀ a cell phase, report.cellAt? a = some cell → cell.hasLog phase = true →
    j.Fresh time phase a ∨ ∃ outcome, j.Settled time phase a outcome

/-- The logs of all operations and chains hold an outcome, and the other ones the marker only. -/
def RecordsAll (j : Journal) (report : Report) (time : DateTime) : Prop :=
  ∀ a cell phase, report.cellAt? a = some cell → cell.hasLog phase = true →
    (∀ rule, cell.rule? phase = some rule → ∃ outcome, j.Settled time phase a outcome) ∧
      (cell.rule? phase = none → j.Fresh time phase a)

end Journal

namespace Context.Follows

variable {base : Context} {done : Nat} {j : Journal}

theorem recordsOnce (h : base.Follows done j) : j.RecordsOnce base.report base.time := by
  intro a cell phase hcell hlog
  cases hrule : cell.rule? phase with
  | none => exact .inl (h.fresh hcell hlog hrule)
  | some rule =>
    rcases h.recorded hcell hrule with ⟨outcome, hsettled, -⟩ | ⟨-, hfresh⟩
    · exact .inr ⟨outcome, hsettled⟩
    · exact .inl hfresh

/-- After the last phase no log of an operation or chain is fresh. -/
theorem records (h : base.Follows 3 j) {a : CellAddress} {cell : Cell} {phase : Phase}
    {rule : phase.Rule} (hcell : base.report.cellAt? a = some cell)
    (hrule : cell.rule? phase = some rule) : base.Records j ⟨a, cell⟩ phase rule := by
  refine (h.recorded hcell hrule).resolve_right fun hlater => ?_
  have hrank := hlater.1
  cases phase <;> simp [Phase.rank] at hrank

theorem recordsAll (h : base.Follows 3 j) : j.RecordsAll base.report base.time := by
  intro a cell phase hcell hlog
  refine ⟨fun rule hrule => ?_, h.fresh hcell hlog⟩
  obtain ⟨outcome, hsettled, -⟩ := h.records hcell hrule
  exact ⟨outcome, hsettled⟩

end Context.Follows

namespace DisabledInput

/-- The only reference leads from the second cell to the first. -/
theorem acyclic : report.Acyclic := by
  refine Report.acyclic_of_lt (·.address.cellIndex) fun n m hread => ?_
  obtain ⟨cell, op, ref, target, hcell, hroot, hmentions, htarget, rfl⟩ := hread
  obtain ⟨a, phase⟩ := n
  have hmem : (a, cell) ∈ report.cells := (Report.mem_cells_iff wellFormed).2 hcell
  simp only [cells_report, List.mem_cons, Prod.mk.injEq, List.not_mem_nil, or_false] at hmem
  rcases hmem with ⟨rfl, rfl⟩ | ⟨rfl, rfl⟩ <;> cases phase <;> cases hroot
  · obtain ⟨href⟩ | ⟨hx, hx'⟩ := hmentions
    · cases href
    · cases List.mem_singleton.1 hx
      obtain ⟨href⟩ | ⟨hx, -⟩ := hx'
      · cases href
      · cases hx
  · obtain ⟨href⟩ | ⟨hx, -⟩ := hmentions
    · cases href
      cases htarget
      decide
    · cases hx

end DisabledInput

/-! ## Recalculations -/

namespace Agent

variable {agent agent' : Agent} {options : RecalcOptions σ} {time : DateTime} {host host' : σ}
  {result : Except Interrupt RecalcSummary}

/-- A recalculation ends with the task of a pass over the report that it leaves behind. -/
theorem exists_passTask (hsources : options.sources = []) (hwf : agent.WellFormed)
    (hacyclic : agent.report.Acyclic) (hutc : time.isUtc = true)
    (hrecalc : agent.recalc options time host = (result, agent', host')) :
    agent'.report.WellFormed ∧ agent'.report.Acyclic ∧ agent'.index = .build agent'.report ∧
      ∃ w r, ((protocolChain agent.config options).passTask agent'.index time agent'.report).run w =
        (r, ⟨agent'.journal, host'⟩) ∧ (r = .ok () ∨ ∃ i, r = .error i ∧ result = .error i) := by
  obtain ⟨s, e, hrun, hend, heq⟩ := recalcBy_ends hwf.report hutc _ host
  cases heq.symm.trans hrecalc
  obtain ⟨r, hpass, hreport, hr⟩ := hend.exists_pass
  obtain ⟨hwf', hacyclic', hbuild⟩ := Round.report_of_reaches hwf.report hacyclic hrun
  rw [ProtocolChain.pass_eq hsources] at hpass
  simp only [hreport]
  exact ⟨hwf', hacyclic', hwf.index.trans hbuild.symm, s.world, r, hpass, hr⟩

/-- A recalculation that succeeds has settled every cell of the report that it leaves behind. -/
theorem follows_of_recalc {summary : RecalcSummary} (hsources : options.sources = [])
    (hwf : agent.WellFormed) (hacyclic : agent.report.Acyclic)
    (hrecalc : agent.recalc options time host = (.ok summary, agent', host')) :
    agent'.report.WellFormed ∧ agent'.report.Acyclic ∧ agent'.index = .build agent'.report ∧
      ((protocolChain agent.config options).context agent'.report agent'.index time
        .execution).Follows 3 agent'.journal := by
  have hutc : time.isUtc = true := by
    by_contra hne
    unfold recalc at hrecalc
    rw [recalcBy_of_not_utc (by simpa using hne)] at hrecalc
    cases hrecalc
  obtain ⟨hwf', hacyclic', hindex, w, r, hpass, hr⟩ :=
    exists_passTask hsources hwf hacyclic hutc hrecalc
  have hr : r = .ok () := hr.resolve_right fun ⟨_, _, herror⟩ => by cases herror
  exact ⟨hwf', hacyclic', hindex,
    ProtocolChain.follows_of_run (ProtocolChain.isBuiltin_protocolChain hsources) hwf' hacyclic'
      hindex (hr ▸ hpass)⟩

/-- Recalculations record each outcome once. Wherever a pass may be suspended once it has cleared
the logs, every log holds the marker of the pass and at most one outcome, a phase is under way, and
all that was recorded since it began is of this phase. The logs have the same form when the
recalculation has ended in any way, and when it succeeds or reaches the limit on its passes, exactly
the operations and chains have their outcome. -/
theorem recalc_records_once (hsources : options.sources = []) (hwf : agent.WellFormed)
    (hacyclic : agent.report.Acyclic) (hutc : time.isUtc = true) :
    (∀ s, Round.Reaches ((protocolChain agent.config options).pass agent.index time) agent.config
        time (agent.firstRound host) s →
      ∀ w ∈ (((protocolChain agent.config options).passTask agent.index time s.report).trace
          s.world).tail,
        w.journal.RecordsOnce s.report time ∧ ∃ phase start,
          Phase.Begins ((protocolChain agent.config options).phaseTask agent.index time s.report)
            (ProtocolChain.cleared s.report time s.world) phase start ∧
          w ∈ ((protocolChain agent.config options).phaseTask agent.index time s.report phase).trace
            start ∧
          start.journal.Grows (·.phase = phase) w.journal) ∧
      ∀ result agent' host', agent.recalc options time host = (result, agent', host') →
        agent'.journal.RecordsOnce agent'.report time ∧
          ((∃ summary, result = .ok summary) ∨
              (∃ limit, result = .error (.error (.rerunLimitExceeded limit))) →
            agent'.journal.RecordsAll agent'.report time) := by
  have hchain : (protocolChain agent.config options).IsBuiltin :=
    ProtocolChain.isBuiltin_protocolChain hsources
  constructor
  · intro s hrun w hw
    obtain ⟨hwf', hacyclic', hbuild⟩ := Round.report_of_reaches hwf.report hacyclic hrun
    obtain ⟨phase, start, hbegins, hmem, hfollows, hgrows⟩ :=
      ProtocolChain.exists_begins_of_mem_tail hchain hwf' hacyclic' (hwf.index.trans hbuild.symm) hw
    exact ⟨hfollows.recordsOnce, phase, start, hbegins, hmem, hgrows⟩
  · intro result agent' host' hrecalc
    obtain ⟨hwf', hacyclic', hindex, w, r, hpass, hr⟩ :=
      exists_passTask hsources hwf hacyclic hutc hrecalc
    constructor
    · have hmem := ProtocolChain.run_mem_tail_trace (protocolChain agent.config options)
        agent'.index time agent'.report w
      rw [hpass] at hmem
      obtain ⟨phase, start, -, -, hfollows, -⟩ :=
        ProtocolChain.exists_begins_of_mem_tail hchain hwf' hacyclic' hindex hmem
      exact hfollows.recordsOnce
    · intro hresult
      suffices hr : r = .ok () from
        (ProtocolChain.follows_of_run hchain hwf' hacyclic' hindex (hr ▸ hpass)).recordsAll
      refine hr.resolve_right fun ⟨i, hi, herror⟩ => ?_
      rcases hresult with ⟨summary, hok⟩ | ⟨limit, hlimit⟩
      · cases hok.symm.trans herror
      · -- the limit is checked after the pass, so it is no error of the pass itself
        cases hlimit.symm.trans herror
        have harises := (Task.failing_runPass hchain _ agent'.report time _).1 w _
          ((congrArg Prod.fst hpass).trans hi)
        cases harises

/-- In both passes over the report with a disabled input, and after them. -/
theorem recalc_records_once_disabledInput :
    (∀ w ∈ (((protocolChain .default .none).passTask (.build DisabledInput.report) ⟨0, 0⟩
        DisabledInput.report).trace (⟨.empty, ()⟩ : World Unit)).tail,
      w.journal.RecordsOnce DisabledInput.report ⟨0, 0⟩) ∧
      ∃ agent', (ofReport DisabledInput.report .default).recalc .none ⟨0, 0⟩ () =
          (.ok ⟨2, ["discount"], []⟩, agent', ()) ∧
        agent'.journal.RecordsAll agent'.report ⟨0, 0⟩ := by
  have hrecalc : (ofReport DisabledInput.report .default).recalc .none ⟨0, 0⟩ () =
      (.ok ⟨2, ["discount"], []⟩,
        ((ofReport DisabledInput.report .default).recalc .none ⟨0, 0⟩ ()).2.1, ()) := rfl
  obtain ⟨hpoints, hends⟩ := @recalc_records_once Unit (ofReport DisabledInput.report .default)
    .none ⟨0, 0⟩ () rfl (.ofReport DisabledInput.wellFormed .default) DisabledInput.acyclic rfl
  exact ⟨fun w hw => (hpoints _ .refl w hw).1, _, hrecalc, (hends _ _ _ hrecalc).2 (.inl ⟨_, rfl⟩)⟩

/-- A successful recalculation refines the plain evaluation. Of every operation cell the last
execution has the outcome of evaluating its operation on the report that is left behind, where every
read of another cell evaluates that cell from scratch; and so it is with the last validation and the
last availability check of every cell with a chain. -/
theorem recalc_refines {summary : RecalcSummary} (hsources : options.sources = [])
    (hwf : agent.WellFormed) (hacyclic : agent.report.Acyclic)
    (hrecalc : agent.recalc options time host = (.ok summary, agent', host')) :
    ∀ a cell phase rule, agent'.report.cellAt? a = some cell → cell.rule? phase = some rule →
      ∃ outcome, (agent'.journal.logOf phase a).last? = some ⟨time, outcome⟩ ∧
        ∀ fuel, agent'.report.evaluationDepth ≤ fuel →
          Plain.outcome ((protocolChain agent.config options).context agent'.report agent'.index
            time phase) ⟨a, cell⟩ phase rule fuel = .ok outcome := by
  have hutc : time.isUtc = true := by
    by_contra hne
    unfold recalc at hrecalc
    rw [recalcBy_of_not_utc (by simpa using hne)] at hrecalc
    cases hrecalc
  obtain ⟨hwf', hacyclic', hindex, w, r, hpass, hr⟩ :=
    exists_passTask hsources hwf hacyclic hutc hrecalc
  have hr : r = .ok () := hr.resolve_right fun ⟨_, _, herror⟩ => by cases herror
  have hfollows := ProtocolChain.follows_of_run (ProtocolChain.isBuiltin_protocolChain hsources)
    hwf' hacyclic' hindex (hr ▸ hpass)
  intro a cell phase rule hcell hrule
  obtain ⟨outcome, hsettled, hplain⟩ := hfollows.records hcell hrule
  refine ⟨outcome, congrArg List.getLast? hsettled.events, fun fuel hfuel => ?_⟩
  exact (hplain fuel).resolve_left
    (Plain.outcome_ne_outOfFuel hwf' hacyclic' hindex hcell hrule hfuel)

/-- The cell that reads the disabled input finds in the end that its value is missing. -/
theorem recalc_refines_disabledInput :
    ∃ agent', (ofReport DisabledInput.report .default).recalc .none ⟨0, 0⟩ () =
        (.ok ⟨2, ["discount"], []⟩, agent', ()) ∧
      ∀ fuel, agent'.report.evaluationDepth ≤ fuel →
        Plain.outcome ((protocolChain .default (.none : RecalcOptions Unit)).context agent'.report
            agent'.index ⟨0, 0⟩ .execution)
          ⟨⟨DisabledInput.position, 1, none⟩, .operation DisabledInput.total⟩ .execution
          DisabledInput.total.operation fuel =
            .ok (.valueMissing "cell discount has no value: no input") := by
  have hrecalc : (ofReport DisabledInput.report .default).recalc .none ⟨0, 0⟩ () =
      (.ok ⟨2, ["discount"], []⟩,
        ((ofReport DisabledInput.report .default).recalc .none ⟨0, 0⟩ ()).2.1, ()) := rfl
  obtain ⟨outcome, hlast, hplain⟩ := recalc_refines rfl
    (.ofReport DisabledInput.wellFormed .default) DisabledInput.acyclic hrecalc
    ⟨DisabledInput.position, 1, none⟩ (.operation DisabledInput.total) .execution _ rfl rfl
  cases hlast
  exact ⟨_, hrecalc, hplain⟩

end Agent

end ReportCalc
