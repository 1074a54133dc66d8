import ReportCalc.Proofs.Agent.Rounds
import ReportCalc.Proofs.Report.Declaration

/-!
# What a recalculation does to inputs

The passes of a recalculation clear the inputs that they find disabled, one pass after the other and
each of them in the order of declaration, and change nothing else of the report
(`Round.ClearedInputs`, an invariant of the rounds). When the recalculation succeeds, nothing is
left to clear unless some verdict is unknown (`Agent.recalc_inputs`). Both hold for any protocols of
the host; a pass in which these nest deeper than `hostDepth` allows is one that is interrupted.
-/

namespace ReportCalc

variable {σ : Type} {pass : Pass σ} {config : Config} {time : DateTime}

namespace Round

/-- Some pass of the run ends, with every verdict known, and finds the cell disabled. -/
def FoundDisabled (pass : Pass σ) (config : Config) (time : DateTime) (start : Round σ)
    (a : CellAddress) : Prop :=
  ∃ s w, Reaches pass config time start s ∧ pass s.report s.world = (.ok (), w) ∧
    (∀ e ∈ s.report.cells, w.journal.hasUnknownVerdict e.1 e.2 = false) ∧
      ∃ cell, s.report.cellAt? a = some cell ∧ w.journal.availabilityState a cell = .disabled

/-- The report is the one of the first round with the inputs at these addresses cleared, each of
which held a value until a pass found it disabled. -/
structure ClearedInputs (pass : Pass σ) (config : Config) (time : DateTime) (start : Round σ)
    (report : Report) (cleared : List CellAddress) : Prop where
  nodup : cleared.Nodup
  report_eq : report = start.report.update (.clearing time cleared)
  held : ∀ a ∈ cleared, ∃ c v, start.report.cellAt? a = some (.input c) ∧ c.value = some v ∧
    v.isNull = false
  found : ∀ a ∈ cleared, FoundDisabled pass config time start a

namespace ClearedInputs

variable {start : Round σ} {report : Report} {cleared : List CellAddress}

theorem refl (start : Round σ) : ClearedInputs pass config time start start.report [] where
  nodup := .nil
  report_eq := Report.update_clearing_nil.symm
  held := List.forall_mem_nil _
  found := List.forall_mem_nil _

/-- An input that is cleared already holds no value, so no pass finds it with one again. -/
theorem input_of_mem_disabledInputs (hstart : start.report.WellFormed)
    (h : ClearedInputs pass config time start report cleared) {j : Journal} {a : CellAddress}
    (ha : a ∈ (j.findings report).disabledInputs) : a ∉ cleared ∧
      ∃ c v, start.report.cellAt? a = some (.input c) ∧ c.value = some v ∧ v.isNull = false := by
  rw [h.report_eq] at ha
  obtain ⟨c, v, hc, hv, hnull, -⟩ := Journal.input_of_mem_disabledInputs hstart.update ha
  obtain ⟨d, hd, rfl⟩ := Report.exists_input_of_update hstart hc
  have hfresh : a ∉ cleared := by
    intro hmem
    rw [InputUpdate.clearing_of_mem hmem] at hv
    simp [InputCell.clearValue] at hv
  rw [InputUpdate.clearing_of_not_mem hfresh] at hv
  exact ⟨hfresh, d, v, hd, hv, hnull⟩

/-- One more round clears what its pass has found disabled. -/
theorem next (hstart : start.report.WellFormed) {s : Round σ} {w : World σ}
    (h : ClearedInputs pass config time start s.report cleared)
    (hrun : Reaches pass config time start s) (hpass : pass s.report s.world = (.ok (), w))
    (hknown : (w.journal.findings s.report).unknownVerdict = false) :
    ClearedInputs pass config time start (s.next time w).report
      (cleared ++ (w.journal.findings s.report).disabledInputs) := by
  have wellFormed : s.report.WellFormed := h.report_eq ▸ hstart.update
  have found {a : CellAddress} (ha : a ∈ (w.journal.findings s.report).disabledInputs) :=
    h.input_of_mem_disabledInputs hstart ha
  refine ⟨?_, ?_, fun a ha => ?_, fun a ha => ?_⟩
  · refine h.nodup.append (Journal.nodup_disabledInputs wellFormed) fun a hcleared ha => ?_
    exact (found ha).1 hcleared
  · rw [(report_next wellFormed w).1]
    refine (congrArg (Report.update _) h.report_eq).trans (Report.update_update fun a c => ?_)
    by_cases ha : a ∈ cleared
    · have hnew : a ∉ (w.journal.findings s.report).disabledInputs := fun hd => (found hd).1 ha
      rw [InputUpdate.clearing_of_not_mem hnew, InputUpdate.clearing_of_mem ha,
        InputUpdate.clearing_of_mem (List.mem_append_left _ ha)]
    · simp [InputUpdate.clearing, ha]
  · rcases List.mem_append.1 ha with ha | ha
    · exact h.held a ha
    · exact (found ha).2
  · rcases List.mem_append.1 ha with ha | ha
    · exact h.found a ha
    · obtain ⟨c, v, hc, -, -, hdisabled⟩ := Journal.input_of_mem_disabledInputs wellFormed ha
      refine ⟨s, w, hrun, hpass, fun e he => ?_, _, hc, hdisabled⟩
      have known := List.any_eq_false.1 hknown e he
      simpa using known

end ClearedInputs

section Run
variable {start s t : Round σ} {rounds : List (Round σ)}

/-- The invariant of the rounds: what is cleared is what the passes find disabled, pass by pass. The
induction is on the rest of the run. -/
theorem ClearedInputs.extend (hstart : start.report.WellFormed) {cleared : List CellAddress}
    (h : ClearedInputs pass config time start s.report cleared)
    (hs : Reaches pass config time start s) (hrun : Run pass config time s rounds t) :
    ClearedInputs pass config time start t.report
        (cleared ++ rounds.flatMap (·.disabledInputs pass)) ∧
      t.summary.clearedInputs = s.summary.clearedInputs ++
        (rounds.flatMap (·.disabledInputs pass)).map start.report.labelAt := by
  induction hrun with
  | refl => exact ⟨by simpa using h, by simp⟩
  | @tail rounds u t hrun hstep ih =>
    obtain ⟨hmore, hlabels⟩ := ih
    rcases hstep with @⟨w, hpass, hfurther, -⟩
    have wellFormed : u.report.WellFormed := hmore.report_eq ▸ hstart.update
    have hnext := hmore.next hstart (hs.trans hrun.reaches) hpass
      (Findings.isFinal_eq_false_iff.1 hfurther).1
    have labels : u.report.labelAt = start.report.labelAt := by
      funext a
      rw [hmore.report_eq, Report.labelAt_update hstart]
    rw [List.flatMap_append, List.flatMap_singleton, disabledInputs_eq hpass]
    refine ⟨List.append_assoc .. ▸ hnext, ?_⟩
    rw [(report_next wellFormed w).2, hlabels, labels, List.map_append, List.append_assoc]

theorem Run.clearedInputs (h : Run pass config time start rounds s)
    (hstart : start.report.WellFormed) :
    ClearedInputs pass config time start s.report (rounds.flatMap (·.disabledInputs pass)) ∧
      s.summary.clearedInputs = start.summary.clearedInputs ++
        (rounds.flatMap (·.disabledInputs pass)).map start.report.labelAt :=
  (ClearedInputs.refl start).extend hstart .refl h

theorem exists_clearedInputs (hstart : start.report.WellFormed)
    (hrun : Reaches pass config time start s) :
    ∃ cleared, ClearedInputs pass config time start s.report cleared ∧
      s.summary.clearedInputs =
        start.summary.clearedInputs ++ cleared.map start.report.labelAt := by
  obtain ⟨rounds, hrun⟩ := exists_run hrun
  exact ⟨_, hrun.clearedInputs hstart⟩

/-- Every pass of a run clears inputs in the order of their declaration. -/
theorem Run.pairwise_disabledInputs (h : Run pass config time start rounds s)
    (hstart : start.report.WellFormed) :
    ∀ t ∈ rounds, (t.disabledInputs pass).Pairwise CellAddress.Before := by
  intro t ht
  obtain ⟨cleared, hcleared, -⟩ := exists_clearedInputs hstart (h.reaches_of_mem t ht)
  have wellFormed : t.report.WellFormed := hcleared.report_eq ▸ hstart.update
  exact List.pairwise_map.2 ((Report.inOrder_cells wellFormed).filter _)

end Run

end Round

/-! ## The end of a recalculation -/

/-- Some verdict on a cell with a chain is unknown: a validation that is missing or failed, or an
availability that is missing or failed. -/
def Agent.HasUnknownVerdict (agent : Agent) : Prop :=
  ∃ a cell, agent.report.cellAt? a = some cell ∧
    ((cell.validation?.isSome ∧ (agent.journal.validationState a cell = .unknown ∨
        agent.journal.validationState a cell = .failed)) ∨
      cell.availability?.isSome ∧ agent.journal.availabilityState a cell = .unknown)

/-- An input that is disabled holds a value. -/
def Agent.HoldsDisabledInput (agent : Agent) : Prop :=
  ∃ a c v, agent.report.cellAt? a = some (.input c) ∧
    agent.journal.availabilityState a (.input c) = .disabled ∧ c.value = some v ∧ v.isNull = false

/-- A pass after which no further one follows has left an unknown verdict or nothing to clear. -/
theorem Agent.hasUnknownVerdict_of_isFinal {agent : Agent} (h : agent.report.WellFormed)
    (hfinal : (agent.journal.findings agent.report).isFinal = true) :
    agent.HasUnknownVerdict ∨ ¬ agent.HoldsDisabledInput := by
  rcases Bool.or_eq_true_iff.1 hfinal with hunknown | hnone
  · obtain ⟨⟨a, cell⟩, hmem, hcell⟩ := List.any_eq_true.1 hunknown
    exact .inl ⟨a, cell, (Report.mem_cells_iff h).1 hmem, Journal.hasUnknownVerdict_iff.1 hcell⟩
  · refine .inr fun ⟨a, c, v, hc, hdisabled, hv, hnull⟩ => ?_
    have hmem : a ∈ (agent.journal.findings agent.report).disabledInputs :=
      Journal.mem_disabledInputs_iff.2 ⟨.input c, (Report.mem_cells_iff h).2 hc,
        Journal.holdsDisabledValue_iff.2 ⟨hdisabled, c, v, rfl, hv, hnull⟩⟩
    simp [List.isEmpty_iff.1 hnone] at hmem

/-- What a recalculation does to inputs. When it succeeds, some verdict is unknown or no disabled
input holds a value. However it ends, it has gone through rounds and cleared what their passes have
found disabled, pass by pass, and after each pass in the order of declaration; every input that was
cleared held a value and was found disabled by a pass that left every verdict known, and the report
is the same otherwise. A successful recalculation lists the labels of those inputs in the order in
which they were cleared. -/
theorem Agent.recalc_inputs {agent agent' : Agent} {options : RecalcOptions σ} {host host' : σ}
    {result : Except Interrupt RecalcSummary} (h : agent.report.WellFormed)
    (hrecalc : agent.recalc options time host = (result, agent', host')) :
    (∀ summary, result = .ok summary → agent'.HasUnknownVerdict ∨ ¬ agent'.HoldsDisabledInput) ∧
      ∃ rounds last cleared,
        Round.Run (agent.recalcPass options time) agent.config time (agent.firstRound host) rounds
          last ∧
        agent'.report = last.report ∧
        cleared = rounds.flatMap (·.disabledInputs (agent.recalcPass options time)) ∧
        (∀ s ∈ rounds,
          (s.disabledInputs (agent.recalcPass options time)).Pairwise CellAddress.Before) ∧
        Round.ClearedInputs (agent.recalcPass options time) agent.config time
          (agent.firstRound host) agent'.report cleared ∧
        (∀ a cell, agent.report.cellAt? a = some cell →
          agent'.report.cellAt? a = some (cell.update (.clearing time cleared) a)) ∧
        ∀ summary, result = .ok summary →
          summary.clearedInputs = cleared.map agent.report.labelAt := by
  have cells {cleared : List CellAddress} (hreport : agent'.report =
      agent.report.update (.clearing time cleared)) (a : CellAddress) (cell : Cell)
      (hcell : agent.report.cellAt? a = some cell) :
      agent'.report.cellAt? a = some (cell.update (.clearing time cleared) a) := by
    rw [hreport, Report.cellAt?_update h, hcell, Option.map_some]
  unfold Agent.recalc at hrecalc
  cases hutc : time.isUtc with
  | false =>
    rw [recalcBy_of_not_utc hutc] at hrecalc
    cases hrecalc
    exact ⟨nofun, [], _, [], .refl, rfl, rfl, List.forall_mem_nil _, .refl _,
      cells Report.update_clearing_nil.symm, nofun⟩
  | true =>
    obtain ⟨s, e, hreaches, hend, heq⟩ := recalcBy_ends h hutc _ host
    cases heq.symm.trans hrecalc
    obtain ⟨rounds, hrun⟩ := Round.exists_run hreaches
    obtain ⟨hcleared, hlabels⟩ := hrun.clearedInputs h
    have hordered := hrun.pairwise_disabledInputs h
    obtain ⟨_, -, hreport, -⟩ := hend.exists_pass
    rw [← hreport] at hcleared
    have wellFormed : e.report.WellFormed := hcleared.report_eq ▸ h.update
    refine ⟨fun summary hsummary => ?_, rounds, s, _, hrun, hreport, rfl, hordered, hcleared,
      cells hcleared.report_eq, fun summary hsummary => ?_⟩
    · exact hasUnknownVerdict_of_isFinal wellFormed (hend.of_ok hsummary).1
    · exact (hend.of_ok hsummary).2.trans hlabels

/-! ## A disabled input -/

namespace DisabledInput

/-- An input that is always disabled. -/
def discount : InputCell :=
  let never : AvailabilityRule :=
    ⟨.enabledWhen (.const (.bool false) (.scalar .bool)), [], .enabled⟩
  ⟨some "discount", 1, .scalar .int, some (.int 5), ⟨none, some never⟩, .empty⟩

/-- A cell that reads the input. -/
def total : OperationCell :=
  ⟨some "total", 1, .cellValue (.inSection "discount" .none) (.scalar .int), .none⟩

def report : Report :=
  let row : Row := ⟨"row", [.input discount, .operation total], [], none, none⟩
  ⟨"report", [⟨"section", "", ⟨[⟨"left", ""⟩, ⟨"right", ""⟩], [], [row], []⟩⟩]⟩

def position : RowPosition := ⟨0, .body, [.child 0]⟩

theorem cells_report : report.cells =
    [(⟨position, 0, none⟩, .input discount), (⟨position, 1, none⟩, .operation total)] := rfl

theorem wellFormed : report.WellFormed := by
  rw [Report.WellFormed, cells_report]
  simp [Cell.WellFormed]

theorem recalc_report : (Agent.ofReport report .default).recalc .none ⟨0, 0⟩ () =
    (.ok ⟨2, ["discount"], []⟩,
      ((Agent.ofReport report .default).recalc .none ⟨0, 0⟩ ()).2.1, ()) := rfl

end DisabledInput

/-! ## An input that is disabled in turn -/

namespace Cascade

/-- An input that is enabled as long as the discount has a value. -/
def surcharge : InputCell :=
  let discounted : AvailabilityRule :=
    ⟨.enabledWhen (.hasValue (.inSection "discount" .none)), [], .enabled⟩
  ⟨some "surcharge", 1, .scalar .int, some (.int 3), ⟨none, some discounted⟩, .empty⟩

def report : Report :=
  let row : Row := ⟨"row", [.input surcharge, .input DisabledInput.discount], [], none, none⟩
  ⟨"report", [⟨"section", "", ⟨[⟨"left", ""⟩, ⟨"right", ""⟩], [], [row], []⟩⟩]⟩

theorem cells_report : report.cells = [(⟨DisabledInput.position, 0, none⟩, .input surcharge),
    (⟨DisabledInput.position, 1, none⟩, .input DisabledInput.discount)] := rfl

theorem wellFormed : report.WellFormed := by
  rw [Report.WellFormed, cells_report]
  simp [Cell.WellFormed]

/-- The first pass finds the discount disabled, and once that is cleared, the second one finds the
surcharge disabled: they are cleared in the order of the passes, not in that of declaration. -/
theorem recalc_inputs_cascade :
    ∃ agent' cleared, (Agent.ofReport report .default).recalc .none ⟨0, 0⟩ () =
        (.ok ⟨3, ["discount", "surcharge"], []⟩, agent', ()) ∧
      (agent'.HasUnknownVerdict ∨ ¬ agent'.HoldsDisabledInput) ∧
        agent'.report = report.update (.clearing ⟨0, 0⟩ cleared) ∧
        cleared.map report.labelAt = ["discount", "surcharge"] := by
  have hrecalc : (Agent.ofReport report .default).recalc .none ⟨0, 0⟩ () =
      (.ok ⟨3, ["discount", "surcharge"], []⟩,
        ((Agent.ofReport report .default).recalc .none ⟨0, 0⟩ ()).2.1, ()) := rfl
  obtain ⟨hdone, _, _, cleared, -, -, -, -, hcleared, -, hlabels⟩ :=
    Agent.recalc_inputs wellFormed hrecalc
  exact ⟨_, cleared, hrecalc, hdone _ rfl, hcleared.report_eq, (hlabels _ rfl).symm⟩

end Cascade

end ReportCalc
