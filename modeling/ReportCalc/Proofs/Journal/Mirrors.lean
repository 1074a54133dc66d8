import ReportCalc.Proofs.Journal.Logs
import ReportCalc.Proofs.Report.History

/-!
# Journals that mirror each other

Two journals mirror each other when the logs of a report's cells hold the same contents in both,
each recorded at one time of its own (`Journal.Mirrors`). Clearing the logs makes any two journals
do so, and recording the same outcome in both keeps it. The findings of a pass are the same then
(`Journal.Mirrors.findings_eq`).
-/

namespace ReportCalc

variable {α : Type} {u : InputUpdate}

/-- The log of these contents, all recorded at one time. -/
def EventLog.ofContents (time : DateTime) (contents : List α) : EventLog α :=
  ⟨contents.map (⟨time, ·⟩)⟩

namespace EventLog

variable {time : DateTime} {contents : List α}

theorem map_content_ofContents : (ofContents time contents).events.map (·.content) = contents := by
  simp [ofContents, Function.comp_def]

theorem ofContents_injective {other : List α}
    (h : ofContents time contents = ofContents time other) : contents = other := by
  have mapped := congrArg (fun log => log.events.map (·.content)) h
  simpa only [map_content_ofContents] using mapped

theorem push_ofContents (a : α) :
    (ofContents time contents).push ⟨time, a⟩ = ofContents time (contents ++ [a]) := by
  simp [ofContents, push]

@[simp] theorem last?_ofContents :
    (ofContents time contents).last? = contents.getLast?.map (⟨time, ·⟩) := by
  simp [ofContents, last?, List.getLast?_map]

end EventLog

@[simp] theorem Cell.hasLog_update {a : CellAddress} {cell : Cell} {phase : Phase} :
    (cell.update u a).hasLog phase = cell.hasLog phase := by
  cases phase <;> simp [hasLog]

namespace Journal

/-- The logs of the report's cells hold the same contents, in the first journal recorded at one time
and in the second at the other. -/
def Mirrors (r : Report) (time time' : DateTime) (j k : Journal) : Prop :=
  ∀ a cell phase, r.cellAt? a = some cell → cell.hasLog phase = true →
    ∃ contents, j.logOf phase a = .ofContents time contents ∧
      k.logOf phase a = .ofContents time' contents

namespace Mirrors

variable {r : Report} {time time' time'' : DateTime} {j k l : Journal}

theorem symm (h : Mirrors r time time' j k) : Mirrors r time' time k j := by
  intro a cell phase hcell hlog
  obtain ⟨contents, hj, hk⟩ := h a cell phase hcell hlog
  exact ⟨contents, hk, hj⟩

theorem trans (hjk : Mirrors r time time' j k) (hkl : Mirrors r time' time'' k l) :
    Mirrors r time time'' j l := by
  intro a cell phase hcell hlog
  obtain ⟨contents, hj, hk⟩ := hjk a cell phase hcell hlog
  obtain ⟨others, hk', hl⟩ := hkl a cell phase hcell hlog
  cases EventLog.ofContents_injective (hk.symm.trans hk')
  exact ⟨contents, hj, hl⟩

/-- Journals that mirror each other at one time have the same logs. -/
theorem logOf_eq (h : Mirrors r time time j k) {a : CellAddress} {cell : Cell} {phase : Phase}
    (hcell : r.cellAt? a = some cell) (hlog : cell.hasLog phase = true) :
    j.logOf phase a = k.logOf phase a := by
  obtain ⟨contents, hj, hk⟩ := h a cell phase hcell hlog
  rw [hj, hk]

/-- It does not matter what the inputs of the report hold. -/
theorem update_iff (hr : r.WellFormed) :
    Mirrors (r.update u) time time' j k ↔ Mirrors r time time' j k := by
  constructor
  · intro h a cell phase hcell hlog
    have hupdated : (r.update u).cellAt? a = some (cell.update u a) := by
      rw [Report.cellAt?_update hr, hcell, Option.map_some]
    exact h a _ phase hupdated (Cell.hasLog_update.trans hlog)
  · intro h a cell phase hcell hlog
    rw [Report.cellAt?_update hr] at hcell
    obtain ⟨original, horiginal, rfl⟩ := Option.map_eq_some_iff.1 hcell
    exact h a original phase horiginal (Cell.hasLog_update.symm.trans hlog)

theorem of_clearLogs (hr : r.WellFormed) (reason : String) (j k : Journal) :
    Mirrors r time time' (j.clearLogs r reason time)
      (k.clearLogs (r.update u) reason time') := by
  intro a cell phase hcell hlog
  have hmem := (Report.mem_cells_iff hr).2 hcell
  have hmem' : (a, cell.update u a) ∈ (r.update u).cells := by
    rw [Report.cells_update]
    exact List.mem_map.2 ⟨(a, cell), hmem, rfl⟩
  exact ⟨[PassContent.cleared reason], logOf_clearLogs hmem hlog,
    logOf_clearLogs hmem' (Cell.hasLog_update.trans hlog)⟩

/-- The same outcome may be recorded in both. -/
theorem push (h : Mirrors r time time' j k) (a : CellAddress) (phase : Phase)
    (outcome : phase.Outcome) : Mirrors r time time' (j.push phase.logKind a ⟨time, outcome⟩)
      (k.push phase.logKind a ⟨time', outcome⟩) := by
  intro b cell p hcell hlog
  obtain ⟨contents, hj, hk⟩ := h b cell p hcell hlog
  by_cases hne : (⟨a, phase⟩ : Node) = ⟨b, p⟩
  · cases hne
    refine ⟨contents ++ [outcome], ?_, ?_⟩
    · rw [logOf, log_push, ← EventLog.push_ofContents, ← hj, logOf]
    · rw [logOf, log_push, ← EventLog.push_ofContents, ← hk, logOf]
  · have other (journal : Journal) (event : Event phase.Outcome) :
        (journal.push phase.logKind a event).logOf p b = journal.logOf p b := by
      refine log_append_of_ne ?_
      rwa [node_record, Phase.phase_logKind, Phase.phase_logKind]
    exact ⟨contents, (other j _).trans hj, (other k _).trans hk⟩

/-! ### Findings -/

variable {a : CellAddress} {cell : Cell} (h : Mirrors r time time' j k)
  (hcell : r.cellAt? a = some cell)
include h hcell

theorem lastOutcome?_eq (hlog : cell.operation?.isSome = true) :
    j.lastOutcome? a = k.lastOutcome? a := by
  obtain ⟨contents, hj, hk⟩ := h a cell .execution hcell hlog
  have hj : j.executions a = .ofContents time contents := hj
  have hk : k.executions a = .ofContents time' contents := hk
  simp [lastOutcome?, hj, hk, Function.comp_def]

theorem validationState_eq : j.validationState a cell = k.validationState a cell := by
  cases hrules : cell.rules? with
  | none => simp [validationState, Cell.validation?, hrules]
  | some rules =>
    obtain ⟨contents, hj, hk⟩ := h a cell .validation hcell (Option.isSome_of_mem hrules)
    have hj : j.validations a = .ofContents time contents := hj
    have hk : k.validations a = .ofContents time' contents := hk
    rw [validationState, validationState, hj, hk, EventLog.last?_ofContents,
      EventLog.last?_ofContents]
    cases contents.getLast? <;> rfl

theorem availabilityState_eq : j.availabilityState a cell = k.availabilityState a cell := by
  cases hrules : cell.rules? with
  | none => simp [availabilityState, Cell.availability?, hrules]
  | some rules =>
    obtain ⟨contents, hj, hk⟩ := h a cell .availability hcell (Option.isSome_of_mem hrules)
    have hj : j.availabilities a = .ofContents time contents := hj
    have hk : k.availabilities a = .ofContents time' contents := hk
    rw [availabilityState, availabilityState, hj, hk, EventLog.last?_ofContents,
      EventLog.last?_ofContents]
    cases contents.getLast? <;> rfl

theorem hasFailed_eq : j.hasFailed a cell = k.hasFailed a cell := by
  cases hrules : cell.rules? with
  | none => simp [hasFailed, hrules]
  | some rules =>
    obtain ⟨contents, hj, hk⟩ := h a cell .availability hcell (Option.isSome_of_mem hrules)
    have hj : j.availabilities a = .ofContents time contents := hj
    have hk : k.availabilities a = .ofContents time' contents := hk
    unfold hasFailed
    rw [h.validationState_eq hcell, hj, hk, EventLog.last?_ofContents, EventLog.last?_ofContents]
    generalize contents.getLast? = last
    cases hoperation : cell.operation?.isSome with
    | true =>
      rw [h.lastOutcome?_eq hcell hoperation]
      rcases last with _ | (_ | _ | _) <;> rfl
    | false =>
      -- a cell without an operation has not failed to execute, whatever its log holds
      rcases last with _ | (_ | _ | _) <;> dsimp only [Option.map] <;> split <;> split <;> rfl

omit hcell in
/-- The findings of passes that leave such journals behind are the same. -/
theorem findings_eq (hr : r.WellFormed) : j.findings r = k.findings r := by
  have on {e : CellAddress × Cell} (he : e ∈ r.cells) : r.cellAt? e.1 = some e.2 :=
    (Report.mem_cells_iff hr).1 he
  have failed : r.cells.filter (fun e => j.hasFailed e.1 e.2) =
      r.cells.filter fun e => k.hasFailed e.1 e.2 :=
    List.filter_congr fun e he => h.hasFailed_eq (on he)
  have unknown : r.cells.any (fun e => j.hasUnknownVerdict e.1 e.2) =
      r.cells.any fun e => k.hasUnknownVerdict e.1 e.2 := by
    refine Bool.eq_iff_iff.2 (List.any_eq_true.trans (.trans ?_ List.any_eq_true.symm))
    refine exists_congr fun e => and_congr_right fun he => ?_
    rw [hasUnknownVerdict, hasUnknownVerdict, h.validationState_eq (on he),
      h.availabilityState_eq (on he)]
  have held : r.cells.filter (fun e => j.holdsDisabledValue e.1 e.2) =
      r.cells.filter fun e => k.holdsDisabledValue e.1 e.2 := by
    refine List.filter_congr fun e he => ?_
    rw [holdsDisabledValue, holdsDisabledValue, h.availabilityState_eq (on he)]
  simp only [findings, failed, unknown, held]

end Mirrors

/-- What a pass finds depends on what inputs hold, but not on their history. -/
theorem findings_update {r : Report} {j : Journal} (hu : ∀ a c, (u.apply a c).held = c.held) :
    j.findings (r.update u) = j.findings r := by
  have failed (a : CellAddress) (cell : Cell) :
      j.hasFailed a (cell.update u a) = j.hasFailed a cell := by
    simp [hasFailed, validationState]
  have unknown (a : CellAddress) (cell : Cell) :
      j.hasUnknownVerdict a (cell.update u a) = j.hasUnknownVerdict a cell := by
    simp [hasUnknownVerdict, validationState, availabilityState]
  have held (a : CellAddress) (cell : Cell) :
      j.holdsDisabledValue a (cell.update u a) = j.holdsDisabledValue a cell := by
    cases hinput : cell.input? <;>
      simp [holdsDisabledValue, availabilityState, hinput, InputCell.any_value_eq, hu a]
  simp only [findings, Report.cells_update, List.filter_map, List.map_map, List.any_map,
    Function.comp_def, failed, unknown, held, Cell.label_update]

end Journal

end ReportCalc
