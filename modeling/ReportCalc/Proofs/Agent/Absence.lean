import ReportCalc.Proofs.Agent.Independence
import ReportCalc.Proofs.Agent.Ending

/-!
# Inputs without a value

An input may be without a value, or hold the absent value. To readers of optional kinds this is the
same, and nothing else that a recalculation does tells the one from the other: neither finds the
input with a value, whether it is asked for by an operation or disabled, and so it is not cleared.
Erasing an absent value goes unnoticed (`InputUpdate.Unnoticed`), so recalculations in the two cases
resemble each other (`Agent.recalc_nullInput`).
-/

namespace ReportCalc

variable {σ : Type}

/-! ## Erasing the absent value -/

/-- Erasing the logs of all inputs, and the value of one input if it is the absent value. -/
def InputUpdate.emptying (i : CellAddress) : InputUpdate where
  apply a c := { c with
    value := if a = i then c.value.filter (!·.isNull) else c.value
    inputs := .empty }
  id_apply _ _ := rfl
  span_apply _ _ := rfl
  kind_apply _ _ := rfl
  rules_apply _ _ := rfl

namespace InputUpdate

variable {i a : CellAddress} {c : InputCell}

theorem value_emptying_of_ne (ha : a ≠ i) : ((emptying i).apply a c).value = c.value := if_neg ha

theorem value_emptying_self : ((emptying i).apply i c).value = c.value.filter (!·.isNull) :=
  if_pos rfl

theorem held_emptying : ((emptying i).apply a c).held = c.held := by
  by_cases ha : a = i
  · subst ha
    rw [InputCell.held, InputCell.held, value_emptying_self]
    cases hvalue : c.value with
    | none => rfl
    | some v =>
      cases hnull : v.isNull with
      | true =>
        rw [Value.isNull_iff.1 hnull]
        rfl
      | false => simp [Option.filter, hnull]
  · exact InputCell.held_eq (value_emptying_of_ne ha)

/-- Readers of optional kinds take no notice when an absent value is erased. -/
theorem unnoticed_emptying {r : Report}
    (hasked : ∀ kind, r.AsksFor i kind → kind.isOptional = true) : (emptying i).Unnoticed r where
  held _ _ := held_emptying
  read a kind hread c := by
    by_cases ha : a = i
    · subst ha
      simp only [InputCell.read, hasked kind hread, if_true, held_emptying]
    · exact InputCell.read_eq (value_emptying_of_ne ha) kind

theorem blurs_emptying : (emptying i).Blurs where
  again a c := by
    by_cases ha : a = i <;> simp [emptying, ha]
  clearValue a c reason time := by
    by_cases ha : a = i <;> simp [emptying, ha, InputCell.clearValue]

end InputUpdate

/-- Reports that are the same but for the history of inputs and an absent value in one of them are
the same when these are erased. -/
theorem Report.update_emptying_eq {r r' nulled : Report} {i : CellAddress} {c : InputCell}
    (hwf : r.WellFormed) (hc : r.cellAt? i = some (.input c)) (habsent : c.value = none)
    (hnulled : r.writeCell? i (.input { c with value := some .null }) = some nulled)
    (hr' : r'.withoutHistory = nulled.withoutHistory) :
    r.update (.emptying i) = r'.update (.emptying i) := by
  have forgets (r : Report) : r.withoutHistory.update (.emptying i) = r.update (.emptying i) :=
    update_update fun _ _ => rfl
  have erases : (r.update (.holding i (some .null) c.inputs)).update (.emptying i) =
      (r.update (.holding i none c.inputs)).update (.emptying i) := by
    have absent : (r.update (.holding i none c.inputs)).update (.emptying i) =
        r.update (.followedBy (.holding i none c.inputs) (.emptying i)) :=
      update_update fun _ _ => rfl
    rw [absent]
    refine update_update fun a d => ?_
    by_cases ha : a = i <;> simp [InputUpdate.followedBy, InputUpdate.holding,
      InputUpdate.emptying, ha, Value.isNull]
  calc r.update (.emptying i)
    _ = (r.update (.holding i none c.inputs)).update (.emptying i) := by
      rw [← habsent, update_holding_self hwf hc]
    _ = nulled.update (.emptying i) := by rw [eq_update_of_writeCell? hwf hc hnulled, erases]
    _ = r'.update (.emptying i) := by rw [← forgets, ← hr', forgets]

/-! ## Inputs that hold nothing -/

theorem InputCell.held_ne_null {c : InputCell} {v : Value} (hv : c.value = some v)
    (hnull : v.isNull = false) : c.held ≠ .null := by
  rw [held, hv, Option.getD_some]
  rintro rfl
  cases hnull

/-- The input shows no value: whatever has been recorded, it is not found to hold one although it is
disabled, and an operation that asks whether it has one is told that it has none. -/
structure Report.ShowsNoValue (r : Report) (a : CellAddress) : Prop where
  not_mem_disabledInputs (j : Journal) : a ∉ (j.findings r).disabledInputs
  run_hasValue {σ : Type} (access : Access (Eval σ)) (cx : Context) (locator : Locator)
    (target : Resolved) (w : World σ) : cx.report = r → cx.resolve locator = .ok target →
      target.address = a → (hasValue access cx locator).run w = (.ok false, w)

theorem Report.showsNoValue {r : Report} (hwf : r.WellFormed) {a : CellAddress} {c : InputCell}
    (hc : r.cellAt? a = some (.input c)) (hheld : c.held = .null) : r.ShowsNoValue a where
  not_mem_disabledInputs j hmem := by
    obtain ⟨d, v, hd, hv, hnull, -⟩ := Journal.input_of_mem_disabledInputs hwf hmem
    cases hc.symm.trans hd
    exact InputCell.held_ne_null hv hnull hheld
  run_hasValue access cx locator target w hreport htarget ha := by
    have hcell := Context.InNode.cellAt?_eq htarget
    rw [hreport, ha, hc] at hcell
    have input : target.operationCell = .error (target.mismatch "operation") := by
      rw [Resolved.operationCell, ← Option.some.inj hcell]
    have stored : storedHasValue target.cell = false := by
      rw [← Option.some.inj hcell, storedHasValue, InputCell.any_value_eq, hheld]
      rfl
    rw [hasValue_eq, htarget, Eval.run_bind, Eval.run_lift]
    simp only [Except.mapError, findValue, input, stored, Eval.run_pure]

/-- Only inputs that hold a value are cleared, so one that holds nothing stays as it is. -/
theorem Round.cellAt?_of_reaches {pass : Pass σ} {config : Config} {time : DateTime}
    {start s : Round σ} (hwf : start.report.WellFormed) {a : CellAddress} {c : InputCell}
    (hc : start.report.cellAt? a = some (.input c)) (hheld : c.held = .null)
    (hrun : Reaches pass config time start s) :
    s.report.WellFormed ∧ s.report.cellAt? a = some (.input c) := by
  obtain ⟨cleared, hcleared, -⟩ := exists_clearedInputs hwf hrun
  have hnot : a ∉ cleared := by
    intro hmem
    obtain ⟨d, v, hd, hv, hnull⟩ := hcleared.held a hmem
    cases hc.symm.trans hd
    exact InputCell.held_ne_null hv hnull hheld
  rw [hcleared.report_eq]
  refine ⟨hwf.update, (Report.cellAt?_update_input hwf hc).trans ?_⟩
  rw [InputUpdate.clearing_of_not_mem hnot]

namespace Agent

variable {agent agent' left left' : Agent} {options : RecalcOptions σ} {time : DateTime}
  {host host' out out' : σ} {result result' : Except Interrupt RecalcSummary} {i : CellAddress}
  {c : InputCell}

/-- The recalculation leaves the input as it was, and in no round does it show a value. -/
structure LeavesEmpty (agent : Agent) (options : RecalcOptions σ) (time : DateTime) (host : σ)
    (left : Agent) (a : CellAddress) : Prop where
  cellAt?_eq : left.report.cellAt? a = agent.report.cellAt? a
  showsNoValue (s : Round σ) : Round.Reaches (agent.recalcPass options time) agent.config time
    (agent.firstRound host) s → s.report.ShowsNoValue a

/-- A recalculation leaves an input that holds nothing empty. -/
theorem leavesEmpty_of_recalc (hwf : agent.report.WellFormed)
    (hc : agent.report.cellAt? i = some (.input c)) (hheld : c.held = .null)
    (hutc : time.isUtc = true) (hrecalc : agent.recalc options time host = (result, left, out)) :
    agent.LeavesEmpty options time host left i := by
  have kept {s : Round σ} (hrun : Round.Reaches (agent.recalcPass options time) agent.config time
      (agent.firstRound host) s) := Round.cellAt?_of_reaches hwf hc hheld hrun
  constructor
  · obtain ⟨s, e, hrun, hend, heq⟩ := recalcBy_ends hwf hutc (agent.recalcPass options time) host
    cases heq.symm.trans hrecalc
    obtain ⟨_, -, hleft, -⟩ := hend.exists_pass
    simp only [hleft, (kept hrun).2, hc]
  · intro s hrun
    exact Report.showsNoValue (kept hrun).1 (kept hrun).2 hheld

/-- An input that holds the absent value behaves like one without a value. Take an agent of an
acyclic report in which the input `i` has no value, and only operations of optional kinds ask for
its value; and one with the same settings, of which the report is the same but for the history of
inputs and for the absent value that `i` holds. Recalculations of both end with the same result,
even if it is an error, all executions, validations and availability checks that are recorded are
the same, and all other inputs hold the same values afterwards. In neither does `i` ever show a
value, and so it is not cleared. -/
theorem recalc_nullInput {nulled : Report} (hsources : options.sources = [])
    (hwf : agent.WellFormed) (hwf' : agent'.WellFormed) (hconfig : agent.config = agent'.config)
    (hacyclic : agent.report.Acyclic) (hcell : agent.report.cellAt? i = some (.input c))
    (habsent : c.value = none)
    (hnulled : agent.report.writeCell? i (.input { c with value := some .null }) = some nulled)
    (hreport : agent'.report.withoutHistory = nulled.withoutHistory)
    (hasked : ∀ kind, agent.report.AsksFor i kind → kind.isOptional = true)
    (hutc : time.isUtc = true)
    (hrecalc : agent.recalc options time host = (result, left, out))
    (hrecalc' : agent'.recalc options time host' = (result', left', out')) :
    result = result' ∧ result ≠ .error .outOfFuel ∧
      (∀ a cell phase, left.report.cellAt? a = some cell → cell.hasLog phase = true →
        left.journal.logOf phase a = left'.journal.logOf phase a) ∧
      (∀ a d, a ≠ i → left.report.cellAt? a = some (.input d) →
        ∃ d', left'.report.cellAt? a = some (.input d') ∧ d'.value = d.value) ∧
      agent.LeavesEmpty options time host left i ∧
      agent'.LeavesEmpty options time host' left' i := by
  have resembles : agent.report.Resembles (.emptying i) agent'.report :=
    ⟨hwf.report, hwf'.report, Report.update_emptying_eq hwf.report hcell habsent hnulled hreport,
      InputUpdate.unnoticed_emptying hasked⟩
  obtain ⟨hresult, hleft, -, hlogs⟩ := recalc_resembles InputUpdate.blurs_emptying hsources hwf hwf'
    hconfig resembles hutc hrecalc hrecalc'
  have hheld : c.held = .null := by rw [InputCell.held, habsent, Option.getD_none]
  obtain ⟨c', hcell', hsame⟩ := resembles.exists_input hcell
  have hheld' : c'.held = .null := by
    rw [← InputUpdate.held_emptying (i := i) (a := i), ← hsame, InputUpdate.held_emptying, hheld]
  refine ⟨hresult, ?_, hlogs, fun a d ha hd => ?_,
    leavesEmpty_of_recalc hwf.report hcell hheld hutc hrecalc,
    leavesEmpty_of_recalc hwf'.report hcell' hheld' hutc hrecalc'⟩
  · have hrecalc : agent.recalcBy (agent.recalcPass options time) time host = _ := hrecalc
    have ends : (agent.recalcBy (agent.recalcPass options time) time host).1 ≠ .error .outOfFuel :=
      recalcBy_ne_outOfFuel hwf.report fun _ hrun =>
        recalcPass_ne_outOfFuel hsources hwf hacyclic hrun
    rwa [hrecalc] at ends
  · obtain ⟨d', hd', hvalue⟩ := hleft.exists_input hd
    have hvalue := congrArg InputCell.value hvalue
    rw [InputUpdate.value_emptying_of_ne ha, InputUpdate.value_emptying_of_ne ha] at hvalue
    exact ⟨d', hd', hvalue.symm⟩

end Agent

/-! ## A disabled input without a value -/

namespace Rebate

variable {value : Option Value}

/-- An input that is always disabled. -/
def rebate (value : Option Value) : InputCell :=
  let never : AvailabilityRule :=
    ⟨.enabledWhen (.const (.bool false) (.scalar .bool)), [], .enabled⟩
  ⟨some "rebate", 1, .optional .int, value, ⟨none, some never⟩, .empty⟩

def locator : Locator := .inReport "section" "rebate" .none

/-- A cell that reads the input. -/
def taken : OperationCell := ⟨some "taken", 1, .cellValue locator (.optional .int), .none⟩

/-- A cell that asks whether the input has a value. -/
def given : OperationCell := ⟨some "given", 1, .hasValue locator, .none⟩

def report (value : Option Value) : Report :=
  let row : Row :=
    ⟨"row", [.input (rebate value), .operation taken, .operation given], [], none, none⟩
  ⟨"report", [⟨"section", "", ⟨[⟨"a", ""⟩, ⟨"b", ""⟩, ⟨"c", ""⟩], [], [row], []⟩⟩]⟩

def position : RowPosition := ⟨0, .body, [.child 0]⟩

theorem cells_report : (report value).cells = [(⟨position, 0, none⟩, .input (rebate value)),
    (⟨position, 1, none⟩, .operation taken), (⟨position, 2, none⟩, .operation given)] := rfl

theorem wellFormed : (report value).WellFormed := by
  rw [Report.WellFormed, cells_report]
  simp [Cell.WellFormed]

/-- Cells are read from cells further on. -/
theorem cellIndex_lt_of_reads {n m : Node} (h : (report value).Reads n m) :
    m.address.cellIndex < n.address.cellIndex := by
  obtain ⟨cell, root, ref, target, hcell, hroot, hmentions, htarget, rfl⟩ := h
  obtain ⟨a, phase⟩ := n
  have hmem : (a, cell) ∈ (report value).cells := (Report.mem_cells_iff wellFormed).2 hcell
  simp only [cells_report, List.mem_cons, Prod.mk.injEq, List.not_mem_nil, or_false] at hmem
  rcases hmem with ⟨rfl, rfl⟩ | ⟨rfl, rfl⟩ | ⟨rfl, rfl⟩ <;> cases phase <;> cases hroot <;>
    obtain ⟨href⟩ | ⟨hx, hmentions⟩ := hmentions
  · cases href
  · cases List.mem_singleton.1 hx
    obtain ⟨href⟩ | ⟨hx, -⟩ := hmentions
    · cases href
    · cases hx
  · cases href
    cases htarget
    exact Nat.zero_lt_one
  · cases hx
  · cases href
    cases htarget
    exact Nat.zero_lt_two
  · cases hx

theorem acyclic : (report value).Acyclic :=
  Report.acyclic_of_lt (·.address.cellIndex) fun _ _ => cellIndex_lt_of_reads

/-- Values are asked for in an optional kind only. -/
theorem isOptional_of_asksFor {b : CellAddress} {kind : Kind} (h : (report value).AsksFor b kind) :
    kind.isOptional = true := by
  obtain ⟨a, cell, phase, root, locator, target, hcell, hroot, hasked, -, -⟩ := h
  have hmem : (a, cell) ∈ (report value).cells := (Report.mem_cells_iff wellFormed).2 hcell
  simp only [cells_report, List.mem_cons, Prod.mk.injEq, List.not_mem_nil, or_false] at hmem
  rcases hmem with ⟨rfl, rfl⟩ | ⟨rfl, rfl⟩ | ⟨rfl, rfl⟩ <;> cases phase <;> cases hroot
  · obtain - | ⟨hx, hasked⟩ := hasked
    cases List.mem_singleton.1 hx
    obtain - | ⟨hx, -⟩ := hasked
    cases hx
  · obtain - | ⟨hx, -⟩ := hasked
    · rfl
    · cases hx
  · obtain - | ⟨hx, -⟩ := hasked
    cases hx

/-- The input is disabled, but neither without a value nor with the absent one does it hold anything
that is cleared, or that the two operations could tell from nothing. -/
theorem recalc_nullInput_rebate :
    ∃ left left', (Agent.ofReport (report none) .default).recalc .none ⟨0, 0⟩ () =
          (.ok ⟨1, [], []⟩, left, ()) ∧
        (Agent.ofReport (report (some .null)) .default).recalc .none ⟨0, 0⟩ () =
          (.ok ⟨1, [], []⟩, left', ()) ∧
        left.journal.lastOutcome? ⟨position, 1, none⟩ = some (.succeeded .null) ∧
        left.journal.lastOutcome? ⟨position, 2, none⟩ = some (.succeeded (.bool false)) ∧
        left.journal.availabilityState ⟨position, 0, none⟩ (.input (rebate none)) = .disabled ∧
        (∀ a cell phase, left.report.cellAt? a = some cell → cell.hasLog phase = true →
          left.journal.logOf phase a = left'.journal.logOf phase a) ∧
        left'.report = report (some .null) := by
  have hrecalc : (Agent.ofReport (report none) .default).recalc .none ⟨0, 0⟩ () =
      (.ok ⟨1, [], []⟩,
        ((Agent.ofReport (report none) .default).recalc .none ⟨0, 0⟩ ()).2.1, ()) := rfl
  have hrecalc' : (Agent.ofReport (report (some .null)) .default).recalc .none ⟨0, 0⟩ () =
      (.ok ⟨1, [], []⟩,
        ((Agent.ofReport (report (some .null)) .default).recalc .none ⟨0, 0⟩ ()).2.1, ()) := rfl
  have hwf (value : Option Value) : (Agent.ofReport (report value) .default).WellFormed :=
    .ofReport wellFormed .default
  have hnulled : (report none).writeCell? ⟨position, 0, none⟩
      (.input { rebate none with value := some .null }) = some (report (some .null)) := rfl
  obtain ⟨-, -, hlogs, -⟩ := Agent.recalc_nullInput rfl (hwf none) (hwf (some .null)) rfl acyclic
    rfl rfl hnulled rfl (fun _ => isOptional_of_asksFor) rfl hrecalc hrecalc'
  exact ⟨_, _, hrecalc, hrecalc', rfl, rfl, rfl, hlogs, rfl⟩

end Rebate

end ReportCalc
