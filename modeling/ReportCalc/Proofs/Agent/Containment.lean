import ReportCalc.Proofs.Agent.Order
import ReportCalc.Proofs.Evaluation.Likeness

/-!
# Failures stay with their cells

What has become of a cell that does not succeed cannot be told from any other cell. When two reports
differ in the operation of one cell, which succeeds in neither, their recalculations record the same
everywhere else, up to the texts of why a value is missing or a chain has failed
(`Agent.recalc_contained`).
-/

namespace ReportCalc

variable {σ τ : Type}

/-! ## Reports whose inputs stay enabled -/

/-- No input cell has an availability chain. -/
def Report.InputsEnabled (r : Report) : Prop :=
  ∀ a c, r.cellAt? a = some (.input c) → c.rules.availability = none

theorem Report.InputsEnabled.clearableInputs_eq_zero {r : Report} (h : r.InputsEnabled)
    (hwf : r.WellFormed) : r.clearableInputs = 0 := by
  refine List.countP_eq_zero.2 fun ⟨a, cell⟩ hmem => ?_
  cases cell with
  | input c =>
    have hnone : c.rules.availability = none := h a c ((Report.mem_cells_iff hwf).1 hmem)
    simp [Cell.isClearable, Cell.availability?, Cell.rules?, hnone]
  | _ => simp [Cell.isClearable, Cell.holdsInput, Cell.input?]

theorem Report.InputsEnabled.operation {r : Report} (h : r.InputsEnabled) (hwf : r.WellFormed)
    (a : CellAddress) (op : Operation) : (r.change (.operation a op)).InputsEnabled := by
  intro b c hc
  rw [cellAt?_change hwf] at hc
  obtain ⟨cell, hcell, hchange⟩ := Option.map_eq_some_iff.1 hc
  have hinput : (cell.change (.operation a op) b).input? = cell.input? := Cell.input?_operation
  rw [hchange] at hinput
  cases cell with
  | input d =>
    cases hinput
    exact h b c hcell
  | _ => cases hinput

theorem Report.InputsEnabled.update {r : Report} (h : r.InputsEnabled) (hwf : r.WellFormed)
    (u : InputUpdate) : (r.update u).InputsEnabled := by
  intro a d hd
  obtain ⟨c, hc, rfl⟩ := exists_input_of_update hwf hd
  rw [u.rules_apply]
  exact h a c hc

namespace Agent

section Enabled
variable {agent done : Agent} {options : RecalcOptions σ} {time : DateTime} {host host' : σ}

/-- Without availability chains on inputs nothing is cleared. -/
theorem report_eq_of_recalc {result : Except Interrupt RecalcSummary}
    (hwf : agent.report.WellFormed) (henabled : agent.report.InputsEnabled)
    (hrecalc : agent.recalc options time host = (result, done, host')) :
    done.report = agent.report ∧ done.index = agent.index := by
  unfold recalc at hrecalc
  cases hutc : time.isUtc with
  | false =>
    rw [recalcBy_of_not_utc hutc] at hrecalc
    cases hrecalc
    exact ⟨rfl, rfl⟩
  | true =>
    obtain ⟨s, e, hrun, hend, heq⟩ := recalcBy_ends hwf hutc _ host
    cases heq.symm.trans hrecalc
    obtain ⟨cleared, hcleared, -⟩ := Round.exists_clearedInputs hwf hrun
    have hlength := hcleared.length_le hwf
    rw [firstRound, henabled.clearableInputs_eq_zero hwf] at hlength
    cases List.eq_nil_of_length_eq_zero (Nat.le_zero.1 hlength)
    obtain ⟨r, -, hreport, -⟩ := hend.exists_pass
    exact ⟨hreport.trans (hcleared.report_eq.trans Report.update_clearing_nil), rfl⟩

theorem follows_base_of_recalc {summary : RecalcSummary} (hsources : options.sources = [])
    (hwf : agent.WellFormed) (hacyclic : agent.report.Acyclic)
    (henabled : agent.report.InputsEnabled)
    (hrecalc : agent.recalc options time host = (.ok summary, done, host')) :
    (agent.base options time).Follows 3 done.journal := by
  obtain ⟨hreport, hindex⟩ := report_eq_of_recalc hwf.report henabled hrecalc
  obtain ⟨-, -, -, hfollows⟩ := follows_of_recalc hsources hwf hacyclic hrecalc
  rwa [hreport, hindex] at hfollows

end Enabled

/-- The agent of a changed report is at the same place, with protocols of its own. -/
theorem base_eq_change {agent agent' : Agent} {options : RecalcOptions σ}
    {options' : RecalcOptions τ} {time : DateTime} {u : CellChange} (hwf : agent.WellFormed)
    (hwf' : agent'.WellFormed) (hreport : agent'.report = agent.report.change u) :
    agent'.base options' time =
      (agent.base options time).change u (protocolChain agent'.config options') := by
  have hindex : agent'.index = agent.index := by
    rw [hwf'.index, hwf.index, hreport, ReportIndex.build_change]
  simp only [base, ProtocolChain.context, hreport, hindex]
  rfl

section Substitution
variable {agent agent' : Agent} {options : RecalcOptions σ} {options' : RecalcOptions τ}
  {time : DateTime} {a : CellAddress} {c : OperationCell} {op : Operation} {j j' : Journal}
  (hwf : agent.WellFormed) (hwf' : agent'.WellFormed)
  (hreport : agent'.report = agent.report.change (.operation a op))
include hwf hwf' hreport

theorem neverSucceeds_of_follows (hcell : agent.report.cellAt? a = some (.operation c))
    (h : (agent.base options time).Follows 3 j) (h' : (agent'.base options' time).Follows 3 j')
    (hfails : (j.lastOutcome? a).bind (·.value?) = none)
    (hfails' : (j'.lastOutcome? a).bind (·.value?) = none) :
    Plain.NeverSucceeds (agent.base options time) (protocolChain agent'.config options') a c
      op := by
  have hcell' : agent'.report.cellAt? a = some (.operation (c.withOperation op)) := by
    rw [hreport, Report.cellAt?_change hwf.report, hcell, Option.map_some, Cell.change_operation,
      if_pos rfl]
  have records : (agent.base options time).Records j ⟨a, .operation c⟩ .execution c.operation :=
    h.records hcell rfl
  have records' : (agent'.base options' time).Records j' ⟨a, .operation (c.withOperation op)⟩
    .execution op := h'.records hcell' rfl
  obtain ⟨o, hsettled, hplain⟩ := records
  obtain ⟨o', hsettled', hplain'⟩ := records'
  have hlast : j.lastOutcome? a = some o :=
    congrArg (·.map (·.content)) (congrArg List.getLast? hsettled.events)
  have hlast' : j'.lastOutcome? a = some o' :=
    congrArg (·.map (·.content)) (congrArg List.getLast? hsettled'.events)
  rw [hlast] at hfails
  rw [hlast'] at hfails'
  have hbase : agent'.base options' time = (agent.base options time).change _ _ :=
    base_eq_change hwf hwf' hreport
  intro l
  rw [← hbase]
  rcases hplain l with hl | hl
  · exact .lost (.inl (.inl hl))
  · rcases hplain' l with hl' | hl'
    · exact .lost (.inr (.inl hl'))
    · exact .values hl hl' ⟨hfails, hfails'⟩

end Substitution

/-- Failures stay with their cells. Take two reports that are the same but for the operation of one
cell, in which no input has an availability chain, and recalculations of both as of one time that
succeed although this cell does not. Then all other executions have the same outcome in both, except
for the texts of why a value is missing, and all validations and availability checks have the same
verdict or fail in both. -/
theorem recalc_contained {agent agent' done done' : Agent} {options : RecalcOptions σ}
    {options' : RecalcOptions τ} {time : DateTime} {host host₁ : σ} {host' host₁' : τ}
    {summary summary' : RecalcSummary} {a : CellAddress} {c : OperationCell} {op : Operation}
    (hsources : options.sources = []) (hsources' : options'.sources = [])
    (hwf : agent.WellFormed) (hwf' : agent'.WellFormed)
    (hacyclic : agent.report.Acyclic) (hacyclic' : agent'.report.Acyclic)
    (hcell : agent.report.cellAt? a = some (.operation c))
    (hreport : agent.report.writeCell? a (.operation (c.withOperation op)) = some agent'.report)
    (henabled : agent.report.InputsEnabled)
    (hrecalc : agent.recalc options time host = (.ok summary, done, host₁))
    (hrecalc' : agent'.recalc options' time host' = (.ok summary', done', host₁'))
    (hfails : (done.journal.lastOutcome? a).bind (·.value?) = none)
    (hfails' : (done'.journal.lastOutcome? a).bind (·.value?) = none) :
    ∀ b cell phase rule, agent.report.cellAt? b = some cell → cell.rule? phase = some rule →
      (⟨b, phase⟩ : Node) ≠ ⟨a, .execution⟩ →
        ∃ o o', (done.journal.logOf phase b).last? = some ⟨time, o⟩ ∧
          (done'.journal.logOf phase b).last? = some ⟨time, o'⟩ ∧ phase.Similar o o' := by
  have hchange := Report.writeCell?_eq_change hwf.report hcell hreport
  have henabled' : agent'.report.InputsEnabled := hchange ▸ henabled.operation hwf.report a op
  have hfollows := follows_base_of_recalc hsources hwf hacyclic henabled hrecalc
  have hfollows' := follows_base_of_recalc hsources' hwf' hacyclic' henabled' hrecalc'
  have hnever : Plain.NeverSucceeds _ _ a c op :=
    neverSucceeds_of_follows hwf hwf' hchange hcell hfollows hfollows' hfails hfails'
  intro b cell phase rule hb hrule hne
  have hb' : agent'.report.cellAt? b = some (cell.change (.operation a op) b) := by
    rw [hchange, Report.cellAt?_change hwf.report, hb, Option.map_some]
  have hrule' : (cell.change (.operation a op) b).rule? phase = some rule :=
    (Cell.rule?_operation hne).trans hrule
  obtain ⟨o, hsettled, hplain⟩ := hfollows.records hb hrule
  obtain ⟨o', hsettled', hplain'⟩ := hfollows'.records hb' hrule'
  refine ⟨o, o', congrArg List.getLast? hsettled.events, congrArg List.getLast? hsettled'.events,
    ?_⟩
  -- with enough fuel for both reports the plain evaluations give what is recorded
  let fuel := max agent.report.evaluationDepth agent'.report.evaluationDepth
  have hout := (hplain fuel).resolve_left
    (Plain.outcome_ne_outOfFuel hwf.report hacyclic hwf.index hb hrule (Nat.le_max_left ..))
  have hout' := (hplain' fuel).resolve_left
    (Plain.outcome_ne_outOfFuel hwf'.report hacyclic' hwf'.index hb' hrule' (Nat.le_max_right ..))
  have hbase : agent'.base options' time = (agent.base options time).change _ _ :=
    base_eq_change hwf hwf' hchange
  have halike := Plain.alike_outcome hwf.report hcell hnever fuel ⟨b, cell⟩ phase rule
  rw [← hbase, hout] at halike
  change AlikeBy _ _ (Plain.outcome _ ⟨b, cell.change _ b⟩ _ _ _) at halike
  rw [hout'] at halike
  exact halike.of_ok

end Agent

namespace Forward

/-- An operation without references that aborts. -/
def aborting : Operation := .abort (some "no rate") (.scalar .int)

/-- An operation without references that divides by zero. -/
def dividing : Operation :=
  .divide (.const (.int 1) (.scalar .int)) (.const (.int 0) (.scalar .int)) (.scalar .int)

theorem not_mentions_aborting (ref : Reference) : ¬ aborting.Mentions ref := by
  rintro (⟨href⟩ | ⟨hx, -⟩)
  · cases href
  · cases hx

theorem not_mentions_dividing (ref : Reference) : ¬ dividing.Mentions ref := by
  rintro (⟨href⟩ | ⟨hx, hmentions⟩)
  · cases href
  · have hconst := List.mem_cons.1 hx
    simp only [List.mem_singleton] at hconst
    rcases hconst with rfl | rfl <;> obtain ⟨href⟩ | ⟨hx, -⟩ := hmentions
    · cases href
    · cases hx
    · cases href
    · cases hx

theorem inputsEnabled {op : Operation} : (report op).InputsEnabled := by
  intro a c hc
  have hmem := (Report.mem_cells_iff wellFormed).2 hc
  simp [cells_report] at hmem

/-- An abort and a division by zero of the cell that is read look the same to its reader. -/
theorem recalc_contained_forward :
    ∃ done done' summary summary',
      (Agent.ofReport (report aborting) .default).recalc .none ⟨0, 0⟩ () = (.ok summary, done, ()) ∧
        (Agent.ofReport (report dividing) .default).recalc .none ⟨0, 0⟩ () =
          (.ok summary', done', ()) ∧
        done.journal.lastOutcome? ⟨position, 1, none⟩ = some (.aborted (some "no rate")) ∧
        done'.journal.lastOutcome? ⟨position, 1, none⟩ = some (.failed "division by zero") ∧
        ∃ o o', (done.journal.logOf .execution ⟨position, 0, none⟩).last? = some ⟨⟨0, 0⟩, o⟩ ∧
          (done'.journal.logOf .execution ⟨position, 0, none⟩).last? = some ⟨⟨0, 0⟩, o'⟩ ∧
          Phase.Similar .execution o o' := by
  have hrecalc : (Agent.ofReport (report aborting) .default).recalc .none ⟨0, 0⟩ () =
      (.ok ⟨1, [], []⟩,
        ((Agent.ofReport (report aborting) .default).recalc .none ⟨0, 0⟩ ()).2.1, ()) := rfl
  have hrecalc' : (Agent.ofReport (report dividing) .default).recalc .none ⟨0, 0⟩ () =
      (.ok ⟨1, [], ["source"]⟩,
        ((Agent.ofReport (report dividing) .default).recalc .none ⟨0, 0⟩ ()).2.1, ()) := rfl
  have hcontained := Agent.recalc_contained (a := ⟨position, 1, none⟩) rfl rfl
    (.ofReport wellFormed .default) (.ofReport wellFormed .default) (acyclic not_mentions_aborting)
    (acyclic not_mentions_dividing) rfl rfl inputsEnabled hrecalc hrecalc' rfl rfl
  exact ⟨_, _, _, _, hrecalc, hrecalc', rfl, rfl,
    hcontained ⟨position, 0, none⟩ (.operation reader) .execution _ rfl rfl nofun⟩

end Forward

end ReportCalc
