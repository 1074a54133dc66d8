import ReportCalc.Proofs.Agent.Outcomes
import ReportCalc.Proofs.Evaluation.Reading

/-!
# Reading after a recalculation

An agent reads values and verdicts off its journal, and operations read them through the
evaluations of cells. When a recalculation has succeeded every cell is settled, so in a context of
its last phase operations find everything recorded, evaluate nothing and read what the agent reads
(`Agent.reads_agree`).
-/

namespace ReportCalc

variable {σ : Type}

/-! ## Absolute locators -/

namespace ReportIndex

variable {index : ReportIndex} {r : Report} {locator : Locator}

/-- What an absolute locator means does not depend on the cell that is current. -/
theorem resolve_of_absolute (h : locator.isRelative = false)
    (current current' : Option CellAddress) :
    index.resolve r locator current = index.resolve r locator current' := by
  cases locator with
  | inReport | standard => rfl
  | inSection | self => cases h

theorem isUnlocated_of_resolve (h : locator.isRelative = false) {current : Option CellAddress}
    {e : EvaluationError} (he : index.resolve r locator current = .error e) :
    e.isUnlocated = true := by
  rw [resolve_of_absolute h current (some ⟨⟨0, .body, []⟩, 0, none⟩)] at he
  exact (resolve_yields locator _).error_of_eq he

end ReportIndex

/-! ## Settled cells -/

namespace Context.Follows

variable {base cx : Context} {target : Resolved} {w : World σ}
  {ev : Context → Operation → Task σ Value} (hfollows : base.Follows 3 w.journal)
  (htime : cx.time = base.time) (hcell : base.report.cellAt? target.address = some target.cell)
include hfollows htime hcell

/-- After a pass, settling a cell finds the outcome that the journal shows. -/
theorem exists_run_settle {phase : Phase} {rule : phase.Rule}
    (hrule : target.cell.rule? phase = some rule) (x : Task σ phase.Outcome) :
    ∃ outcome, (settle phase.logKind cx target x).run w = (.ok ⟨cx.time, outcome⟩, w) ∧
      (w.journal.logOf phase target.address).last? = some ⟨cx.time, outcome⟩ ∧
        PassContent.isCleared outcome = false := by
  obtain ⟨outcome, hsettled, -⟩ := hfollows.records hcell hrule
  rw [← htime] at hsettled
  refine ⟨outcome, ?_, congrArg List.getLast? hsettled.events, hsettled.isCleared⟩
  rw [Task.run_settle, hsettled.settled?_eq]

theorem exists_run_executeCell {c : OperationCell} (hc : target.operationCell = .ok c) :
    ∃ outcome, (executeCell ev cx target).run w = (.ok outcome, w) := by
  obtain ⟨outcome, hrun, -⟩ := hfollows.exists_run_settle htime hcell
    (Resolved.rule?_execution hc) (outcomeOf (ev (cx.enter target) c.operation))
  have hsettle : (settle .executions cx target
      (outcomeOf (ev (cx.enter target) c.operation))).run w = (.ok ⟨cx.time, outcome⟩, w) := hrun
  refine ⟨outcome, ?_⟩
  rw [executeCell_eq hc, Task.run_bind, hsettle]
  rfl

/-- Every cell is looked at and read as it is. -/
theorem finds : Task.Finds (.recorded ev) cx target w w := by
  cases hc : target.operationCell with
  | error e => exact .stored hc
  | ok c =>
    obtain ⟨outcome, hrun⟩ := hfollows.exists_run_executeCell htime hcell hc
    exact .executed hc hrun

/-- A cell without a chain is valid, and otherwise the journal shows the outcome of its chain. -/
theorem exists_run_validateCell {rules : CellRules} (hrules : target.rules = .ok rules) :
    ∃ outcome, (validateCell ev cx target).run w = (.ok ⟨cx.time, outcome⟩, w) ∧
      w.journal.validationState target.address target.cell = outcome.state ∧
        PassContent.isCleared outcome = false := by
  have hrule : target.cell.validation? = rules.validation := Resolved.rule?_validation hrules
  obtain ⟨validation, availability⟩ := rules
  cases validation with
  | none =>
    refine ⟨.completed ⟨.valid, none⟩, ?_, by rw [Journal.validationState, hrule]; rfl, rfl⟩
    rw [validateCell, hrules]
    rfl
  | some chain =>
    have hchain : target.cell.rule? .validation = some chain := hrule
    obtain ⟨outcome, hrun, hlast, hcleared⟩ := hfollows.exists_run_settle htime hcell hchain
      (validationOutcome (ev (cx.enter target)) chain)
    have hvalidations : (w.journal.validations target.address).last? =
      some ⟨cx.time, outcome⟩ := hlast
    rw [validateCell_eq hrules rfl]
    refine ⟨outcome, hrun, ?_, hcleared⟩
    rw [Journal.validationState, hrule, hvalidations]
    rfl

/-- A cell without a chain is enabled, and otherwise the journal shows the outcome of its chain. -/
theorem exists_run_checkCell {rules : CellRules} (hrules : target.rules = .ok rules) :
    ∃ outcome, (checkCell ev cx target).run w = (.ok ⟨cx.time, outcome⟩, w) ∧
      w.journal.availabilityState target.address target.cell = outcome.state ∧
        PassContent.isCleared outcome = false := by
  have hrule : target.cell.availability? = rules.availability := Resolved.rule?_availability hrules
  obtain ⟨validation, availability⟩ := rules
  cases availability with
  | none =>
    refine ⟨.completed .enabled, ?_, by rw [Journal.availabilityState, hrule]; rfl, rfl⟩
    rw [checkCell, hrules]
    rfl
  | some chain =>
    have hchain : target.cell.rule? .availability = some chain := hrule
    obtain ⟨outcome, hrun, hlast, hcleared⟩ := hfollows.exists_run_settle htime hcell hchain
      (availabilityOutcome (ev (cx.enter target)) chain)
    have havailabilities : (w.journal.availabilities target.address).last? =
      some ⟨cx.time, outcome⟩ := hlast
    rw [checkCell_eq hrules rfl]
    refine ⟨outcome, hrun, ?_, hcleared⟩
    rw [Journal.availabilityState, hrule, havailabilities]
    rfl

end Context.Follows

/-! ## What is read -/

/-- What reading the verdict on the validity of a cell comes to, given the validity that an agent
shows. -/
inductive ReadsValidity : Except EvaluationError ValidationState → Except Interrupt Validity → Prop
  | verdict {v : Validity} : ReadsValidity (.ok (ValidationOutcome.completed v).state) (.ok v)
  | failed {label reason : String} :
      ReadsValidity (.ok .failed) (.error (.error (.noVerdict label reason)))
  | error {e : EvaluationError} (h : ∀ label reason, e ≠ .noVerdict label reason) :
      ReadsValidity (.error e) (.error (.error e))

/-- What reading the verdict on the availability of a cell comes to, given the availability that an
agent shows. -/
inductive ReadsAvailability :
    Except EvaluationError AvailabilityState → Except Interrupt Availability → Prop
  | verdict {a : Availability} :
      ReadsAvailability (.ok (AvailabilityOutcome.completed a).state) (.ok a)
  | unknown {label reason : String} :
      ReadsAvailability (.ok .unknown) (.error (.error (.noVerdict label reason)))
  | error {e : EvaluationError} (h : ∀ label reason, e ≠ .noVerdict label reason) :
      ReadsAvailability (.error e) (.error (.error e))

/-- What operations read of the cell that a locator means is what the agent reads, and leaves the
world as it is. -/
structure Agent.ReadsAlike {m : Type → Type} [Interruptible m] (agent : Agent) (locator : Locator)
    (cx : Context) (w : World σ) (run : ∀ {α : Type}, m α → World σ → Except Interrupt α × World σ)
    (access : Access m) : Prop where
  value (kind : Kind) : ∃ r, run (ReportCalc.cellValue access cx locator kind) w = (r, w) ∧
    ReadsValue kind (agent.resolve locator) (agent.cellValue locator) r
  found : (run (hasValue access cx locator) w).2 = w
  validity : ∃ r, run (validityOf access cx locator) w = (r, w) ∧
    ReadsValidity (agent.validity locator) r
  availability : ∃ r, run (availabilityOf access cx locator) w = (r, w) ∧
    ReadsAvailability (agent.availability locator) r

theorem EvaluationError.ne_noVerdict_of_isUnlocated {e : EvaluationError}
    (h : e.isUnlocated = true) (label reason : String) : e ≠ .noVerdict label reason := by
  rintro rfl
  cases h

theorem Resolved.ne_noVerdict_of_rules {target : Resolved} {e : EvaluationError}
    (h : target.rules = .error e) (label reason : String) : e ≠ .noVerdict label reason := by
  unfold Resolved.rules at h
  split at h <;> cases h
  exact nofun

/-- An agent reads what the cell holds that the locator means. -/
theorem Agent.cellValue_eq (agent : Agent) (locator : Locator) :
    agent.cellValue locator = agent.resolve locator >>= (·.held agent.journal) := by
  unfold Agent.cellValue
  cases agent.resolve locator with
  | error e => rfl
  | ok target =>
    obtain ⟨address, cell⟩ := target
    cases cell <;> rfl

namespace Task

section Reads
variable {agent : Agent} {base cx : Context} {w : World σ} {locator : Locator}
  (hresolve : cx.resolve locator = agent.resolve locator) (hreport : base.report = agent.report)
include hresolve hreport

/-- A read that leaves the world as it is goes by the cell that the locator means, in the context as
for the agent. -/
theorem run_resolved {α β : Type} {read : Resolved → Task σ α}
    {answer : Resolved → Except EvaluationError β}
    {Reads : Except EvaluationError β → Except Interrupt α → Prop}
    (herror : ∀ e, agent.resolve locator = .error e → Reads (.error e) (.error (.error e)))
    (hread : ∀ target, agent.resolve locator = .ok target →
      base.report.cellAt? target.address = some target.cell →
        ∃ r, (read target).run w = (r, w) ∧ Reads (answer target) r) :
    ∃ r, (liftM (cx.resolve locator) >>= read).run w = (r, w) ∧
      Reads (agent.resolve locator >>= answer) r := by
  rw [run_bind, run_liftM, hresolve]
  cases htarget : agent.resolve locator with
  | error e => exact ⟨_, rfl, herror e htarget⟩
  | ok target =>
    exact hread target htarget (hreport ▸ ReportIndex.cellAt?_eq_of_resolve htarget)

/-- A read of a verdict asks also that the cell can have chains. No error on the way there is one of
a missing verdict. -/
theorem run_ruled (habsolute : locator.isRelative = false) {α β : Type} {read : Resolved → Task σ α}
    {answer : Resolved → β} {Reads : Except EvaluationError β → Except Interrupt α → Prop}
    (herror : ∀ e, (∀ label reason, e ≠ .noVerdict label reason) →
      Reads (.error e) (.error (.error e)))
    (hrefused : ∀ target e, target.rules = .error e →
      (read target).run w = (.error (.error e), w))
    (hread : ∀ target rules, target.rules = .ok rules →
      base.report.cellAt? target.address = some target.cell →
        ∃ r, (read target).run w = (r, w) ∧ Reads (.ok (answer target)) r) :
    ∃ r, (liftM (cx.resolve locator) >>= read).run w = (r, w) ∧
      Reads (agent.resolve locator >>= fun target =>
        target.rules >>= fun _ => pure (answer target)) r := by
  refine run_resolved hresolve hreport (fun e he => ?_) fun target _ hcell => ?_
  · have hunlocated := ReportIndex.isUnlocated_of_resolve habsolute he
    exact herror e (EvaluationError.ne_noVerdict_of_isUnlocated hunlocated)
  · cases hrules : target.rules with
    | error e =>
      exact ⟨_, hrefused target e hrules, herror e (Resolved.ne_noVerdict_of_rules hrules)⟩
    | ok rules => exact hread target rules hrules hcell

variable {ev : Context → Operation → Task σ Value} (hjournal : w.journal = agent.journal)
  (hfollows : base.Follows 3 w.journal) (htime : cx.time = base.time)
  (habsolute : locator.isRelative = false)
include hjournal hfollows htime

theorem run_cellValue (kind : Kind) :
    ∃ r, (cellValue (.recorded ev) cx locator kind).run w = (r, w) ∧
      ReadsValue kind (agent.resolve locator) (agent.cellValue locator) r := by
  rw [cellValue_eq, Agent.cellValue_eq, ← hjournal]
  refine run_resolved hresolve hreport (fun e _ => .error) fun target htarget hcell => ?_
  rw [htarget]
  exact (hfollows.finds htime hcell).read kind

include habsolute

theorem run_validityOf : ∃ r, (validityOf (.recorded ev) cx locator).run w = (r, w) ∧
    ReadsValidity (agent.validity locator) r := by
  rw [validityOf_eq, Agent.validity, ← hjournal]
  refine run_ruled hresolve hreport habsolute (fun _ => .error) (fun target e hrules => ?_)
    fun target rules hrules hcell => ?_
  · have hrun : ((Access.recorded ev).validate cx target).run w = (.error (.error e), w) := by
      change (validateCell ev cx target).run w = _
      rw [validateCell, hrules]
      rfl
    rw [readValidity, run_bind, hrun]
  · obtain ⟨outcome, hrun, hstate, hcleared⟩ : ∃ outcome : ValidationOutcome,
        ((Access.recorded ev).validate cx target).run w = (.ok ⟨cx.time, outcome⟩, w) ∧
          w.journal.validationState target.address target.cell = outcome.state ∧
            PassContent.isCleared outcome = false :=
      hfollows.exists_run_validateCell htime hcell hrules
    rw [readValidity, run_bind, hrun, hstate]
    cases outcome with
    | cleared => cases hcleared
    | completed v => exact ⟨_, rfl, .verdict⟩
    | failed reason => exact ⟨_, rfl, .failed⟩

theorem run_availabilityOf : ∃ r, (availabilityOf (.recorded ev) cx locator).run w = (r, w) ∧
    ReadsAvailability (agent.availability locator) r := by
  rw [availabilityOf_eq, Agent.availability, ← hjournal]
  refine run_ruled hresolve hreport habsolute (fun _ => .error) (fun target e hrules => ?_)
    fun target rules hrules hcell => ?_
  · have hrun : ((Access.recorded ev).check cx target).run w = (.error (.error e), w) := by
      change (checkCell ev cx target).run w = _
      rw [checkCell, hrules]
      rfl
    rw [readAvailability, run_bind, hrun]
  · obtain ⟨outcome, hrun, hstate, hcleared⟩ : ∃ outcome : AvailabilityOutcome,
        ((Access.recorded ev).check cx target).run w = (.ok ⟨cx.time, outcome⟩, w) ∧
          w.journal.availabilityState target.address target.cell = outcome.state ∧
            PassContent.isCleared outcome = false :=
      hfollows.exists_run_checkCell htime hcell hrules
    rw [readAvailability, run_bind, hrun, hstate]
    cases outcome with
    | cleared => cases hcleared
    | completed a => exact ⟨_, rfl, .verdict⟩
    | failed reason => exact ⟨_, rfl, .unknown⟩

theorem readsAlike (ev : Context → Operation → Task σ Value) :
    agent.ReadsAlike locator cx w run (.recorded ev) where
  value := run_cellValue hresolve hreport hjournal hfollows htime
  found := by
    -- looking leaves the same world behind as reading as a value of whatever kind
    obtain ⟨r, hrun, -⟩ : ∃ r, (cellValue (.recorded ev) cx locator .bool).run w = (r, w) ∧ _ :=
      run_cellValue hresolve hreport hjournal hfollows htime .bool
    rw [← (guards ev cx locator w).world_eq .bool, hrun]
  validity := run_validityOf hresolve hreport hjournal hfollows htime habsolute
  availability := run_availabilityOf hresolve hreport hjournal hfollows htime habsolute

end Reads

section Agreement
variable {ev : Context → Operation → Task σ Value} {ev' : Context → Operation → Eval σ Value}
  (h : ∀ cx op, agreement.Rel (ev cx op) (ev' cx op)) {cx : Context}
  (hphase : cx.phase = .availability) (locator : Locator)
include h hphase

theorem agreement_validityOf : agreement.Rel (validityOf (.recorded ev) cx locator)
    (validityOf (.recorded ev') cx locator) :=
  Correspondence.validityOf agreement_recordsLocal.admits (fun _ _ => trivial) fun target _ =>
    agreement_reads h cx target .validation (by simp [hphase])

theorem agreement_availabilityOf : agreement.Rel (availabilityOf (.recorded ev) cx locator)
    (availabilityOf (.recorded ev') cx locator) :=
  Correspondence.availabilityOf agreement_recordsLocal.admits (fun _ _ => trivial) fun target _ =>
    agreement_reads h cx target .availability hphase

end Agreement

end Task

/-- Operations that are evaluated in one go read what tasks of a single step read. -/
theorem Eval.readsAlike {agent : Agent} {base cx : Context} {w : World σ} {locator : Locator}
    (hresolve : cx.resolve locator = agent.resolve locator) (hreport : base.report = agent.report)
    (hjournal : w.journal = agent.journal) (hfollows : base.Follows 3 w.journal)
    (htime : cx.time = base.time) (habsolute : locator.isRelative = false)
    (hphase : cx.phase = .availability) (ev : Context → Operation → Eval σ Value) :
    agent.ReadsAlike locator cx w run (.recorded ev) := by
  let step (cx : Context) (op : Operation) : Task σ Value := .ofEval (ev cx op)
  have hstep (cx : Context) (op : Operation) : Task.agreement.Rel (step cx op) (ev cx op) :=
    Task.agreement_ofEval (ev cx op)
  have hreads := Task.readsAlike hresolve hreport hjournal hfollows htime habsolute step
  constructor
  · simpa only [Task.agreement_cellValue hstep cx locator _ w] using hreads.value
  · simpa only [Task.agreement_hasValue hstep cx locator w] using hreads.found
  · simpa only [Task.agreement_validityOf hstep hphase locator w] using hreads.validity
  · simpa only [Task.agreement_availabilityOf hstep hphase locator w] using hreads.availability

namespace Agent

variable {agent agent' : Agent} {options : RecalcOptions σ} {time : DateTime} {host host' : σ}

/-- After a recalculation that succeeds, what the agent reads at an absolute locator is what
operations read there in the last phase of the pass, whichever cell is current. Nothing is recorded
by that, and nothing is evaluated, so it does not matter how operations are evaluated. -/
theorem reads_agree {summary : RecalcSummary} (hsources : options.sources = [])
    (hwf : agent.WellFormed) (hacyclic : agent.report.Acyclic)
    (hrecalc : agent.recalc options time host = (.ok summary, agent', host')) {locator : Locator}
    (habsolute : locator.isRelative = false) (current : Option Resolved) (state : σ)
    (ev : Evaluator σ) :
    let cx : Context := { (protocolChain agent.config options).context agent'.report agent'.index
      time .availability with current }
    agent'.ReadsAlike locator cx ⟨agent'.journal, state⟩ Eval.run (.recorded ev.run) ∧
      agent'.ReadsAlike locator cx ⟨agent'.journal, state⟩ Task.run (.recorded ev.task) := by
  intro cx
  obtain ⟨-, -, -, hfollows⟩ := follows_of_recalc hsources hwf hacyclic hrecalc
  have hresolve : cx.resolve locator = agent'.resolve locator :=
    ReportIndex.resolve_of_absolute habsolute _ _
  have hreport : ((protocolChain agent.config options).context agent'.report agent'.index time
    .execution).report = agent'.report := rfl
  exact ⟨Eval.readsAlike hresolve hreport rfl hfollows rfl habsolute rfl ev.run,
    Task.readsAlike hresolve hreport rfl hfollows rfl habsolute ev.task⟩

/-- The input that was cleared is read as one that is missing and disabled. -/
theorem reads_agree_disabledInput :
    let chain : ProtocolChain Unit := protocolChain .default .none
    let locator : Locator := .inReport "section" "discount" .none
    ∃ agent', (ofReport DisabledInput.report .default).recalc .none ⟨0, 0⟩ () =
        (.ok ⟨2, ["discount"], []⟩, agent', ()) ∧
      agent'.cellValue locator = .ok none ∧ agent'.availability locator = .ok .disabled ∧
        agent'.ReadsAlike locator
          (chain.context agent'.report agent'.index ⟨0, 0⟩ .availability)
          ⟨agent'.journal, ()⟩ Eval.run (.recorded (chain.evaluator 1).run) := by
  intro chain locator
  have hrecalc : (ofReport DisabledInput.report .default).recalc .none ⟨0, 0⟩ () =
      (.ok ⟨2, ["discount"], []⟩,
        ((ofReport DisabledInput.report .default).recalc .none ⟨0, 0⟩ ()).2.1, ()) := rfl
  exact ⟨_, hrecalc, rfl, rfl, (reads_agree rfl (.ofReport DisabledInput.wellFormed .default)
    DisabledInput.acyclic hrecalc rfl none () (chain.evaluator 1)).1⟩

end Agent

end ReportCalc
