import ReportCalc.Proofs.Agent.Calls
import ReportCalc.Proofs.Evaluation.Kinds
import ReportCalc.Proofs.Report.Building
import ReportCalc.Proofs.Value.Typed

/-!
# Values are of their declared kinds

Inputs declare the kind of their values, and operations that of their results. Whatever calls of an
agent are made and however they end, inputs hold values of their kinds
(`Agent.inputsConform_after`). So do the logs of executions, as long as the host's protocols write
no logs themselves (`Agent.admitsLogs_after`): a pass begins by clearing the logs, and what it
records has been checked. Therefore reading a cell in the type of its kind does not fail
(`Agent.kinds_admitted`). Protocols of the host that nest deeper than `hostDepth` allows are no
exception: what they have recorded by then has been checked, too.
-/

namespace ReportCalc

variable {σ : Type}

/-! ## Passes -/

/-- After a pass the values in logs are of the kinds of the operations, however it ends and whatever
the logs held before. -/
theorem ProtocolChain.admitsLogs_pass {host : List (ProtocolSource σ)} {kinds : List Kind}
    (hhost : ∀ source ∈ host, source.WritesNoLogs) (index : ReportIndex) (time : DateTime)
    {r : Report} (hwf : r.WellFormed) (w : World σ) :
    r.AdmitsLogs ((withBuiltins host kinds).pass index time r w).2.journal ∧
      r.AdmitsLogs ((withBuiltins host kinds).taskPass index time r w).2.journal := by
  let chain := withBuiltins host kinds
  have hkeeps : (chain.evaluator r.evaluationDepth).Keeps r r.AdmitsLogs :=
    evaluator_keeps hhost r _
  have visits (phase : Phase) : (keeping r.AdmitsLogs).Rel
      (runPhase (chain.evaluator r.evaluationDepth).task (chain.context r index time phase))
      (runPhase (chain.evaluator r.evaluationDepth).run (chain.context r index time phase)) := by
    refine Correspondence.forM _ fun target htarget => hkeeps.visit _ phase target rfl ?_
    exact (Report.mem_cells_iff hwf).1 (Report.mem_targets_iff.1 htarget).1
  have phases := (keeping r.AdmitsLogs).forM fun phase (_ : phase ∈ Phase.all) => visits phase
  have cleared : r.AdmitsLogs (w.journal.clearLogs r passReason time) := .clearLogs hwf _ _
  exact ⟨(phases.run { w with journal := w.journal.clearLogs r passReason time } cleared).1,
    (phases.task { w with journal := w.journal.clearLogs r passReason time } cleared).1⟩

/-- Changing inputs changes no operation. -/
theorem Report.AdmitsLogs.update {r : Report} {j : Journal} (h : r.AdmitsLogs j)
    (hwf : r.WellFormed) (u : InputUpdate) : (r.update u).AdmitsLogs j := by
  intro a c hc
  rw [cellAt?_update hwf] at hc
  obtain ⟨cell, hcell, hupdate⟩ := Option.map_eq_some_iff.1 hc
  have hoperation : cell.operation? = some c := by
    rw [← Cell.operation?_update, hupdate]
    rfl
  cases cell <;> cases hoperation
  exact h a c hcell

/-! ## Calls -/

/-- The protocols of the host that the call brings write no logs themselves. -/
def AgentCall.WritesNoLogs : AgentCall σ → Prop
  | .setInput .. | .setTypedInput .. => True
  | .recalc options .. | .recalcTask options .. =>
    ∀ source ∈ options.sources, source.WritesNoLogs

namespace Agent

variable {agent : Agent}

theorem inputsConform_setInput (hwf : agent.report.WellFormed) (h : agent.report.InputsConform)
    (locator : Locator) (value : Option Value) (time : DateTime) :
    ((agent.setInput locator value time).toOption.getD agent).report.InputsConform := by
  rcases setInput_cases hwf locator value time with ⟨b, c, -, hcell, hcheck, hset⟩ | ⟨e, hset⟩
  · rw [hset]
    refine Report.InputsConform.update hwf fun a d hd => (h a d hd).setting time fun ha => ?_
    cases hcell.symm.trans (ha ▸ hd)
    exact hcheck
  · rw [hset]
    exact h

theorem inputsConform_recalcBy (hwf : agent.report.WellFormed) (h : agent.report.InputsConform)
    (pass : Pass σ) (time : DateTime) (host : σ) :
    (agent.recalcBy pass time host).2.1.report.InputsConform := by
  obtain ⟨cleared, -, heq⟩ := exists_clearing_of_recalcBy hwf pass time host
  rw [heq]
  exact Report.InputsConform.update hwf fun a c hc => (h a c hc).clearing time cleared a

theorem admitsLogs_setInput (hwf : agent.report.WellFormed)
    (h : agent.report.AdmitsLogs agent.journal) (locator : Locator) (value : Option Value)
    (time : DateTime) :
    let agent' := (agent.setInput locator value time).toOption.getD agent
    agent'.report.AdmitsLogs agent'.journal := by
  rcases setInput_cases hwf locator value time with ⟨b, c, -, -, -, hset⟩ | ⟨e, hset⟩
  · rw [hset]
    exact h.update hwf _
  · rw [hset]
    exact h

/-- The logs are what the last pass has left, or what they were. -/
theorem admitsLogs_recalcBy (hwf : agent.report.WellFormed)
    (h : agent.report.AdmitsLogs agent.journal) {pass : Pass σ}
    (hpass : ∀ r : Report, r.WellFormed → ∀ w, r.AdmitsLogs (pass r w).2.journal)
    (time : DateTime) (host : σ) :
    let agent' := (agent.recalcBy pass time host).2.1
    agent'.report.AdmitsLogs agent'.journal := by
  cases hutc : time.isUtc with
  | false =>
    rw [recalcBy_of_not_utc hutc]
    exact h
  | true =>
    obtain ⟨s, e, hrun, hend, heq⟩ := recalcBy_ends hwf hutc pass host
    obtain ⟨cleared, hcleared, -⟩ := Round.exists_clearedInputs hwf hrun
    obtain ⟨r, hlast, hreport, -⟩ := hend.exists_pass
    have hwf' : s.report.WellFormed := by
      rw [hcleared.report_eq]
      exact hwf.update
    have hlogs := hpass s.report hwf' s.world
    rw [hlast] at hlogs
    rw [heq, hreport]
    exact hlogs

/-- Inputs hold values of their kinds after any calls, however they end. -/
theorem inputsConform_after (hwf : agent.WellFormed) (h : agent.report.InputsConform)
    (calls : List (AgentCall σ)) : (agent.after calls).report.InputsConform := by
  refine (after_induction (P := fun agent => agent.WellFormed ∧ agent.report.InputsConform)
    ⟨hwf, h⟩ ?_).2
  rintro agent ⟨hwf, h⟩ call -
  refine ⟨hwf.perform call, ?_⟩
  cases call with
  | setInput => exact inputsConform_setInput hwf.report h _ _ _
  | setTypedInput => exact inputsConform_setInput hwf.report h _ _ _
  | recalc => exact inputsConform_recalcBy hwf.report h _ _ _
  | recalcTask => exact inputsConform_recalcBy hwf.report h _ _ _

/-- The logs hold values of the kinds of the operations after any calls of which the hosts write no
logs themselves, however the calls end. -/
theorem admitsLogs_after (hwf : agent.WellFormed) (h : agent.report.AdmitsLogs agent.journal)
    {calls : List (AgentCall σ)} (hcalls : ∀ call ∈ calls, call.WritesNoLogs) :
    (agent.after calls).report.AdmitsLogs (agent.after calls).journal := by
  refine (after_induction (P := fun agent =>
    agent.WellFormed ∧ agent.report.AdmitsLogs agent.journal) ⟨hwf, h⟩ ?_).2
  rintro agent ⟨hwf, h⟩ call hcall
  refine ⟨hwf.perform call, ?_⟩
  have hhost := hcalls call hcall
  cases call with
  | setInput => exact admitsLogs_setInput hwf.report h _ _ _
  | setTypedInput => exact admitsLogs_setInput hwf.report h _ _ _
  | recalc options time host =>
    refine admitsLogs_recalcBy hwf.report h (fun r hr w => ?_) time host
    exact (ProtocolChain.admitsLogs_pass hhost _ time hr w).1
  | recalcTask options time host =>
    refine admitsLogs_recalcBy hwf.report h (fun r hr w => ?_) time host
    exact (ProtocolChain.admitsLogs_pass hhost _ time hr w).2

/-! ## Reading values in the type of a kind -/

theorem exists_valueOf {kind : TypedKind} {locator : Locator} {held : Option Value}
    (hheld : agent.cellValue locator = .ok held)
    (hadmits : ∀ v, held = some v → kind.kind.admits v = true) :
    ∃ x, agent.valueOf kind locator = .ok x := by
  unfold valueOf
  rw [hheld]
  cases held with
  | none => exact ⟨none, rfl⟩
  | some v =>
    have hsome : (kind.ofValue? v).isSome = true := by
      rw [kind.isSome_ofValue?]
      exact hadmits v rfl
    obtain ⟨x, hx⟩ := Option.isSome_iff_exists.1 hsome
    refine ⟨some x, ?_⟩
    simp only [bind, Except.bind, hx]
    rfl

theorem exists_valueOf_input (h : agent.report.InputsConform) {kind : TypedKind}
    {locator : Locator} {a : CellAddress} {c : InputCell}
    (htarget : agent.resolve locator = .ok ⟨a, .input c⟩) (hkind : c.kind = kind.kind) :
    ∃ x, agent.valueOf kind locator = .ok x := by
  have hheld : agent.cellValue locator = .ok c.value := by
    unfold cellValue
    rw [htarget]
    rfl
  refine exists_valueOf hheld fun v hv => ?_
  rw [← hkind]
  exact (h a c (ReportIndex.cellAt?_eq_of_resolve htarget)).admits hv

theorem exists_valueOf_operation (h : agent.report.AdmitsLogs agent.journal) {kind : TypedKind}
    {locator : Locator} {a : CellAddress} {c : OperationCell}
    (htarget : agent.resolve locator = .ok ⟨a, .operation c⟩)
    (hkind : c.operation.kind = kind.kind) : ∃ x, agent.valueOf kind locator = .ok x := by
  have hheld : agent.cellValue locator =
      .ok ((agent.journal.lastOutcome? a).bind (·.value?)) := by
    unfold cellValue
    rw [htarget]
    rfl
  refine exists_valueOf hheld fun v hv => ?_
  obtain ⟨outcome, hlast, hvalue⟩ := Option.bind_eq_some_iff.1 hv
  obtain ⟨e, he, rfl⟩ := Option.map_eq_some_iff.1 hlast
  rw [← hkind]
  refine h a c (ReportIndex.cellAt?_eq_of_resolve htarget) e (List.mem_of_getLast? he) v ?_
  cases hcontent : e.content <;> rw [hcontent] at hvalue <;> cases hvalue
  rfl

/-- Stored and computed values are of their declared kinds. With whatever protocols, every value
that an operation is evaluated to is of the kind of the operation, and every value that is read from
a cell is of the kind that it is read as. Take an agent of a report that is built with the
constructors, and any calls, however they end. Then every input holds a value of its kind, if it
holds one, and reading it in the type of this kind succeeds. If moreover the host's protocols write
no logs themselves, then every value in the log of executions of a cell is of the kind of the cell's
operation, and reading the cell in the type of this kind succeeds. -/
theorem kinds_admitted {report : Report} {config : Config} (hbuilt : report.Built)
    (calls : List (AgentCall σ)) :
    let agent := (ofReport report config).after calls
    (∀ (chain : ProtocolChain σ) (fuel : Nat) (cx : Context) (w : World σ) (v : Value),
      let ev := chain.evaluator fuel
      (∀ op, ((ev.run cx op).run w).1 = .ok v ∨ ((ev.task cx op).run w).1 = .ok v →
          op.kind.admits v = true) ∧
        ∀ locator kind,
          ((ReportCalc.cellValue (.recorded ev.run) cx locator kind).run w).1 = .ok v ∨
            ((ReportCalc.cellValue (.recorded ev.task) cx locator kind).run w).1 = .ok v →
          kind.admits v = true) ∧
      (∀ a c, agent.report.cellAt? a = some (.input c) →
        ∀ v, c.value = some v → c.kind.admits v = true) ∧
      (∀ kind locator a c, agent.resolve locator = .ok ⟨a, .input c⟩ → c.kind = kind.kind →
        ∃ x, agent.valueOf kind locator = .ok x) ∧
      ((∀ call ∈ calls, call.WritesNoLogs) →
        (∀ a c, agent.report.cellAt? a = some (.operation c) →
          ∀ e ∈ (agent.journal.executions a).events, ∀ v, e.content = .succeeded v →
            c.operation.kind.admits v = true) ∧
        ∀ kind locator a c, agent.resolve locator = .ok ⟨a, .operation c⟩ →
          c.operation.kind = kind.kind → ∃ x, agent.valueOf kind locator = .ok x) := by
  have hwf : (ofReport report config).WellFormed := .ofReport hbuilt.wellFormed config
  have hinputs : report.InputsConform := hbuilt.inputsConform
  have hconform := inputsConform_after hwf hinputs calls
  refine ⟨fun chain fuel cx w v => ⟨fun op => ?_, fun locator kind => ?_⟩,
    fun a c hc v => (hconform a c hc).admits, fun kind locator a c => exists_valueOf_input hconform,
    fun hcalls => ?_⟩
  · have hadmits := chain.evaluator_admits fuel cx op
    rintro (h | h)
    · exact (hadmits.run w trivial).2 v h
    · exact (hadmits.task w trivial).2 v h
  · have hadmits := cellValue_admits (.recorded (chain.evaluator fuel).task)
      (.recorded (chain.evaluator fuel).run) cx locator kind
    rintro (h | h)
    · exact (hadmits.run w trivial).2 v h
    · exact (hadmits.task w trivial).2 v h
  · have hlogs := admitsLogs_after hwf .empty hcalls
    exact ⟨hlogs, fun kind locator a c => exists_valueOf_operation hlogs⟩

end Agent

/-! ## An input that a protocol of the host reads -/

namespace Quantity

def quantity : InputCell := ⟨some "quantity", 1, .scalar .int, none, .none, .empty⟩

/-- A cell that the host evaluates. -/
def counted : OperationCell :=
  ⟨some "counted", 1, .custom "counted" (.scalar .int)
    [.cellValue (.inSection "quantity" .none) (.scalar .int)] .null, .none⟩

def report : Report :=
  let row : Row := ⟨"row", [.input quantity, .operation counted], [], none, none⟩
  ⟨"report", [⟨"section", "", ⟨[⟨"left", ""⟩, ⟨"right", ""⟩], [], [row], []⟩⟩]⟩

def position : RowPosition := ⟨0, .body, [.child 0]⟩

theorem cells_report : report.cells =
    [(⟨position, 0, none⟩, .input quantity), (⟨position, 1, none⟩, .operation counted)] := rfl

theorem built : report.Built := by
  rw [Report.Built, cells_report, List.forall_mem_cons, List.forall_mem_singleton]
  exact ⟨.withId "quantity" (.ofInput _), .withId "counted" (.ofOperation _)⟩

def locator (id : String) : Locator := .inReport "section" id .none

/-- The input is set, refused a text, and read in two recalculations. -/
def calls : List (AgentCall Nat) :=
  [.setTypedInput (.plain .int) (locator "quantity") (some (21 : Int64)) ⟨0, 0⟩,
    .recalc ⟨[Counting.source], []⟩ ⟨1, 0⟩ 0,
    .setInput (locator "quantity") (some (.text "many")) ⟨2, 0⟩,
    .recalcTask ⟨[Counting.source], []⟩ ⟨3, 0⟩ 1]

theorem writesNoLogs_protocol : Counting.protocol.WritesNoLogs := by
  intro ev r I h cx op hreport
  cases op with
  | custom name result args payload =>
    cases args with
    | nil => exact .fail _
    | cons x rest =>
      have hx := h.evaluate cx x hreport
      exact ⟨fun w hw => hx.task { w with host := w.host + 1 } hw,
        fun w hw => hx.run { w with host := w.host + 1 } hw⟩
  | _ => exact .fail _

theorem writesNoLogs_calls : ∀ call ∈ calls, call.WritesNoLogs := by
  have hsource : ∀ source ∈ [Counting.source], source.WritesNoLogs := by
    intro s hs key protocol hfound
    cases List.mem_singleton.1 hs
    unfold Counting.source at hfound
    split at hfound <;> cases hfound
    exact writesNoLogs_protocol
  simp only [calls, List.forall_mem_cons]
  exact ⟨trivial, hsource, trivial, hsource, List.forall_mem_nil _⟩

/-- What the host has made of the input is an integer, in the log and when it is read. -/
theorem kinds_admitted_quantity :
    let agent := (Agent.ofReport report .default).after calls
    (∀ e ∈ (agent.journal.executions ⟨position, 1, none⟩).events, ∀ v, e.content = .succeeded v →
        (Kind.scalar .int).admits v = true) ∧
      (∃ x, agent.valueOf (.plain .int) (locator "quantity") = .ok x) ∧
      (∃ x, agent.valueOf (.plain .int) (locator "counted") = .ok x) ∧
        agent.valueOf (.plain .int) (locator "counted") = .ok (some (21 : Int64)) := by
  obtain ⟨-, -, hinput, hoperation⟩ := @Agent.kinds_admitted Nat report .default built calls
  obtain ⟨hlogs, hread⟩ := hoperation writesNoLogs_calls
  exact ⟨hlogs _ counted rfl, hinput _ _ ⟨position, 0, none⟩ _ rfl rfl,
    hread _ _ ⟨position, 1, none⟩ counted rfl rfl, rfl⟩

end Quantity

/-! ## A protocol of the host that writes a log -/

namespace Overwriting

/-- A protocol that puts an integer into the log of another cell. -/
def protocol : Protocol Unit := .leaf fun _ cx _ => do
  let target ← cx.resolve (.inSection "name" .none)
  Recording.modifyJournal (·.pushExecution target.address ⟨cx.time, .succeeded (.int 1)⟩)
  return .bool true

/-- The protocol for Boolean results under one name. -/
def source : ProtocolSource Unit := fun key =>
  if key = ⟨.custom "overwrite", .bool⟩ then some protocol else none

def writer : OperationCell := ⟨some "writer", 1, .custom "overwrite" .bool [] .null, .none⟩

def name : OperationCell := ⟨some "name", 1, .const (.text "Ada") (.scalar .text), .none⟩

def row : Row := ⟨"row", [.operation writer, .operation name], [], none, none⟩

def table : Table := ⟨[⟨"left", ""⟩, ⟨"right", ""⟩], [], [row], []⟩

def report : Report := ⟨"report", [⟨"section", "", table⟩]⟩

def position : RowPosition := ⟨0, .body, [.child 0]⟩

def locator : Locator := .inReport "section" "name" .none

theorem cells_report : report.cells =
    [(⟨position, 0, none⟩, .operation writer), (⟨position, 1, none⟩, .operation name)] := rfl

theorem built : report.Built := by
  rw [Report.Built, cells_report, List.forall_mem_cons, List.forall_mem_singleton]
  exact ⟨.withId "writer" (.ofOperation _), .withId "name" (.ofOperation _)⟩

/-- The cell declares a text, but the integer that the host has put into its log settles it, and it
cannot be read as a text. -/
theorem kinds_not_admitted_overwriting :
    let agent := (Agent.ofReport report .default).after [.recalc ⟨[source], []⟩ ⟨0, 0⟩ ()]
    report.Built ∧ Table.make table.columns [] [row] [] = .ok table ∧
      Report.make "report" [⟨"section", "", table⟩] = .ok report ∧
      agent.resolve locator = .ok ⟨⟨position, 1, none⟩, .operation name⟩ ∧
      name.operation.kind = .scalar .text ∧
      (agent.journal.executions ⟨position, 1, none⟩).events =
        [⟨⟨0, 0⟩, .cleared passReason⟩, ⟨⟨0, 0⟩, .succeeded (.int 1)⟩] ∧
      (Kind.scalar .text).admits (.int 1) = false ∧
      agent.valueOf (.plain .text) locator =
        .error (.typeMismatch (.scalar .text) "Int" "value of section/name") :=
  ⟨built, rfl, rfl, rfl, rfl, rfl, rfl, rfl⟩

end Overwriting

end ReportCalc
