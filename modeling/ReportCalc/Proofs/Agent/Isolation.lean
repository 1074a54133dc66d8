import ReportCalc.Proofs.Agent.Containment
import ReportCalc.Proofs.Evaluation.Isolation
import ReportCalc.Proofs.Journal.Mirrors

/-!
# Cells see only what they reference

Give one input of a report another value, and a recalculation records the same as before for every
operation and every chain whose references do not lead to that input
(`Agent.recalc_noninterference`).
-/

namespace ReportCalc

variable {σ τ : Type}

namespace Agent

/-- Recalculations do not let a value flow anywhere but along references. Take two acyclic reports
that are the same but for what one input holds and has logged, in which no input has an availability
chain, and recalculations of both as of one time that succeed. Then every log of an operation or a
chain from which no references lead to that input has the same contents in both. -/
theorem recalc_noninterference {agent agent' done done' : Agent} {options : RecalcOptions σ}
    {options' : RecalcOptions τ} {time : DateTime} {host host₁ : σ} {host' host₁' : τ}
    {summary summary' : RecalcSummary} {i : CellAddress} {c : InputCell} {value : Option Value}
    {inputs : EventLog InputChange} (hsources : options.sources = [])
    (hsources' : options'.sources = []) (hwf : agent.WellFormed) (hwf' : agent'.WellFormed)
    (hacyclic : agent.report.Acyclic) (hcell : agent.report.cellAt? i = some (.input c))
    (hreport : agent.report.writeCell? i (.input { c with value, inputs }) = some agent'.report)
    (henabled : agent.report.InputsEnabled)
    (hrecalc : agent.recalc options time host = (.ok summary, done, host₁))
    (hrecalc' : agent'.recalc options' time host' = (.ok summary', done', host₁')) :
    ∀ a cell phase, agent.report.cellAt? a = some cell → cell.hasLog phase = true →
      ¬ Relation.TransGen agent.report.Reads ⟨a, phase⟩ ⟨i, .execution⟩ →
        done.journal.logOf phase a = done'.journal.logOf phase a := by
  have hupdate := Report.eq_update_of_writeCell? hwf.report hcell hreport
  have hacyclic' : agent'.report.Acyclic := hupdate ▸ hacyclic.update hwf.report
  have henabled' : agent'.report.InputsEnabled := hupdate ▸ henabled.update hwf.report _
  have hfollows := follows_base_of_recalc hsources hwf hacyclic henabled hrecalc
  have hfollows' := follows_base_of_recalc hsources' hwf' hacyclic' henabled' hrecalc'
  intro a cell phase ha hlog hapart
  have ha' : agent'.report.cellAt? a = some (cell.update (.holding i value inputs) a) := by
    rw [hupdate, Report.cellAt?_update hwf.report, ha, Option.map_some]
  refine congrArg EventLog.mk ?_
  cases hrule : cell.rule? phase with
  | none =>
    have hlog' : (cell.update (.holding i value inputs) a).hasLog phase = true := by
      rw [Cell.hasLog_update, hlog]
    have hnone : (cell.update (.holding i value inputs) a).rule? phase = none := by
      rw [Cell.rule?_update, hrule]
    exact (hfollows.fresh ha hlog hrule).trans (hfollows'.fresh ha' hlog' hnone).symm
  | some rule =>
    have hrule' : (cell.update (.holding i value inputs) a).rule? phase = some rule := by
      rw [Cell.rule?_update, hrule]
    obtain ⟨o, hsettled, hplain⟩ := hfollows.records ha hrule
    obtain ⟨o', hsettled', hplain'⟩ := hfollows'.records ha' hrule'
    -- with enough fuel for both reports the plain evaluations give what is recorded
    let fuel := max agent.report.evaluationDepth agent'.report.evaluationDepth
    have hout := (hplain fuel).resolve_left
      (Plain.outcome_ne_outOfFuel hwf.report hacyclic hwf.index ha hrule (Nat.le_max_left ..))
    have hout' := (hplain' fuel).resolve_left
      (Plain.outcome_ne_outOfFuel hwf'.report hacyclic' hwf'.index ha' hrule'
        (Nat.le_max_right ..))
    have hbase : agent'.base options' time = (agent.base options time).change _ _ :=
      base_eq_change hwf hwf' (hupdate.trans Report.update_eq_change)
    have hconcurs : Concurs (Plain.outcome (agent.base options time) ⟨a, cell⟩ phase rule fuel)
        (Plain.outcome (agent'.base options' time) ⟨a, cell.update (.holding i value inputs) a⟩
          phase rule fuel) := by
      rw [hbase]
      refine Plain.concurs_outcome hwf.report hwf.index (fun b d hb => ?_) fuel ha hrule hapart
      exact congrArg InputCell.value (if_neg hb)
    rw [hout, hout'] at hconcurs
    exact hsettled.events.trans (hconcurs.of_ok ▸ hsettled'.events.symm)

end Agent

/-! ## A cell that reads an input and one that does not -/

namespace Priced

variable {value : Option Value}

def price (value : Option Value) : InputCell :=
  ⟨some "price", 1, .scalar .int, value, .none, .empty⟩

def fee : OperationCell := ⟨some "fee", 1, .const (.int 3) (.scalar .int), .none⟩

/-- The cell that reads the input. -/
def total : OperationCell :=
  ⟨some "total", 1, .cellValue (.inSection "price" .none) (.scalar .int), .none⟩

def report (value : Option Value) : Report :=
  let row : Row :=
    ⟨"row", [.input (price value), .operation fee, .operation total], [], none, none⟩
  ⟨"report", [⟨"section", "", ⟨[⟨"a", ""⟩, ⟨"b", ""⟩, ⟨"c", ""⟩], [], [row], []⟩⟩]⟩

def position : RowPosition := ⟨0, .body, [.child 0]⟩

theorem cells_report : (report value).cells = [(⟨position, 0, none⟩, .input (price value)),
    (⟨position, 1, none⟩, .operation fee), (⟨position, 2, none⟩, .operation total)] := rfl

theorem wellFormed : (report value).WellFormed := by
  rw [Report.WellFormed, cells_report]
  simp [Cell.WellFormed]

/-- The only reference leads from the third cell to the first. -/
theorem eq_of_reads {n m : Node} (h : (report value).Reads n m) :
    n = ⟨⟨position, 2, none⟩, .execution⟩ ∧ m = ⟨⟨position, 0, none⟩, .execution⟩ := by
  obtain ⟨cell, op, ref, target, hcell, hroot, hmentions, htarget, rfl⟩ := h
  obtain ⟨a, phase⟩ := n
  have hmem : (a, cell) ∈ (report value).cells := (Report.mem_cells_iff wellFormed).2 hcell
  simp only [cells_report, List.mem_cons, Prod.mk.injEq, List.not_mem_nil, or_false] at hmem
  rcases hmem with ⟨rfl, rfl⟩ | ⟨rfl, rfl⟩ | ⟨rfl, rfl⟩ <;> cases phase <;> cases hroot <;>
    obtain ⟨href⟩ | ⟨hx, -⟩ := hmentions
  · cases href
  · cases hx
  · cases href
    cases htarget
    exact ⟨rfl, rfl⟩
  · cases hx

theorem acyclic : (report value).Acyclic := by
  refine Report.acyclic_of_lt (·.address.cellIndex) fun n m hread => ?_
  obtain ⟨rfl, rfl⟩ := eq_of_reads hread
  exact Nat.zero_lt_two

theorem inputsEnabled : (report value).InputsEnabled := by
  intro a c hc
  have hmem := (Report.mem_cells_iff wellFormed).2 hc
  simp only [cells_report, List.mem_cons, Prod.mk.injEq, Cell.input.injEq, reduceCtorEq, and_false,
    List.not_mem_nil, or_false] at hmem
  rw [hmem.2]
  rfl

/-- A rise of the price is seen by the cell that reads it and by no other one. -/
theorem recalc_noninterference_priced :
    ∃ done done' summary summary',
      (Agent.ofReport (report (some (.int 5))) .default).recalc .none ⟨0, 0⟩ () =
          (.ok summary, done, ()) ∧
        (Agent.ofReport (report (some (.int 6))) .default).recalc .none ⟨0, 0⟩ () =
          (.ok summary', done', ()) ∧
        done.journal.lastOutcome? ⟨position, 2, none⟩ = some (.succeeded (.int 5)) ∧
        done'.journal.lastOutcome? ⟨position, 2, none⟩ = some (.succeeded (.int 6)) ∧
        done.journal.logOf .execution ⟨position, 1, none⟩ =
          done'.journal.logOf .execution ⟨position, 1, none⟩ := by
  have hrecalc : (Agent.ofReport (report (some (.int 5))) .default).recalc .none ⟨0, 0⟩ () =
      (.ok ⟨1, [], []⟩,
        ((Agent.ofReport (report (some (.int 5))) .default).recalc .none ⟨0, 0⟩ ()).2.1, ()) := rfl
  have hrecalc' : (Agent.ofReport (report (some (.int 6))) .default).recalc .none ⟨0, 0⟩ () =
      (.ok ⟨1, [], []⟩,
        ((Agent.ofReport (report (some (.int 6))) .default).recalc .none ⟨0, 0⟩ ()).2.1, ()) := rfl
  have hsame := Agent.recalc_noninterference (i := ⟨position, 0, none⟩)
    (c := price (some (.int 5))) rfl rfl (.ofReport wellFormed .default)
    (.ofReport wellFormed .default) acyclic rfl rfl inputsEnabled hrecalc hrecalc'
  refine ⟨_, _, _, _, hrecalc, hrecalc', rfl, rfl,
    hsame ⟨position, 1, none⟩ (.operation fee) .execution rfl rfl fun hreaches => ?_⟩
  obtain ⟨m, hread, -⟩ := Relation.TransGen.head'_iff.1 hreaches
  cases (eq_of_reads hread).1

end Priced

end ReportCalc
