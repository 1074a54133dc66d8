import ReportCalc.Proofs.Agent.Termination

/-!
# The order of visits

A phase visits the cells in declaration order, but any other order leads to the same logs. Whatever
the order, a visit either finds its cell settled already, from the middle of another cell's
evaluation, or settles it with the outcome of the plain evaluation, which knows of no order. So an
order decides neither whether a phase succeeds nor what it records (`Agent.visits_perm`).
-/

namespace ReportCalc

variable {σ : Type} {m : Type → Type}

/-! ## Visits in an order -/

/-- The cells of a list that take part in a phase, in the order of the list. -/
def Phase.targetsAmong (phase : Phase) (cells : List (CellAddress × Cell)) : List Resolved :=
  (cells.filter fun (_, cell) => phase.concerns cell).map fun (a, cell) => ⟨a, cell⟩

/-- A phase that visits cells in the order of a list. -/
def runPhaseIn [Recording m] (ev : Context → Operation → m Value) (cx : Context)
    (cells : List (CellAddress × Cell)) : m Unit :=
  cx.phase.run (.recorded ev) cx (cx.phase.targetsAmong cells)

theorem runPhase_eq_runPhaseIn [Recording m] (ev : Context → Operation → m Value) (cx : Context) :
    runPhase ev cx = runPhaseIn ev cx cx.report.cells := rfl

theorem Phase.mem_targetsAmong_iff {phase : Phase} {r : Report} {cells : List (CellAddress × Cell)}
    (h : cells.Perm r.cells) (target : Resolved) :
    target ∈ phase.targetsAmong cells ↔ target ∈ r.targets phase :=
  ((h.filter _).map _).mem_iff

/-- Visits without a journal know of no order: they succeed when each one does. -/
theorem Plain.run_eq_ok_iff {phase : Phase} {access : Access (Except Interrupt)} {cx : Context}
    {targets : List Resolved} : phase.run access cx targets = .ok () ↔
      ∀ target ∈ targets, phase.visit access cx target = .ok () := by
  unfold Phase.run
  induction targets with
  | nil => exact ⟨fun _ => List.forall_mem_nil _, fun _ => rfl⟩
  | cons target rest ih =>
    have first : (target :: rest).forM (phase.visit access cx) =
      phase.visit access cx target >>= fun _ => rest.forM (phase.visit access cx) := rfl
    rw [first, List.forall_mem_cons, ← ih]
    cases phase.visit access cx target with
    | ok _ => exact ⟨fun h => ⟨rfl, h⟩, fun h => h.2⟩
    | error i => exact ⟨nofun, fun h => nomatch h.1⟩

/-- Two journals of a pass over an acyclic report agree on the phases that are done in both. -/
theorem Context.Follows.logOf_eq {base : Context} {done : Nat} {j k : Journal}
    (hj : base.Follows done j) (hk : base.Follows done k) (hwf : base.report.WellFormed)
    (hacyclic : base.report.Acyclic) (hindex : base.index = .build base.report) {a : CellAddress}
    {cell : Cell} {phase : Phase} (hcell : base.report.cellAt? a = some cell)
    (hlog : cell.hasLog phase = true) (hdone : phase.rank < done) :
    j.logOf phase a = k.logOf phase a := by
  refine congrArg EventLog.mk ?_
  cases hrule : cell.rule? phase with
  | none => exact (hj.fresh hcell hlog hrule).trans (hk.fresh hcell hlog hrule).symm
  | some rule =>
    have recorded {l : Journal} (hl : base.Follows done l) :
        base.Records l ⟨a, cell⟩ phase rule :=
      (hl.recorded hcell hrule).resolve_right fun hlater => Nat.not_le.2 hdone hlater.1
    obtain ⟨outcome, hsettled, hplain⟩ := recorded hj
    obtain ⟨outcome', hsettled', hplain'⟩ := recorded hk
    have hends : Plain.outcome base ⟨a, cell⟩ phase rule base.report.evaluationDepth ≠ _ :=
      Plain.outcome_ne_outOfFuel hwf hacyclic hindex hcell hrule (Nat.le_refl _)
    have hsame : outcome = outcome' := Except.ok.inj
      (((hplain _).resolve_left hends).symm.trans ((hplain' _).resolve_left hends))
    exact hsettled.events.trans (hsame ▸ hsettled'.events.symm)

/-! ## Phases of a pass -/

namespace Agent

/-- A phase of a pass over the report of the agent that visits cells in the order of a list. -/
def visits (agent : Agent) (options : RecalcOptions σ) (time : DateTime)
    (cells : List (CellAddress × Cell)) (phase : Phase) : Eval σ Unit :=
  let chain := protocolChain agent.config options
  runPhaseIn (chain.evaluator agent.report.evaluationDepth).run
    (chain.context agent.report agent.index time phase) cells

/-- The same phase as a task. -/
def visitsTask (agent : Agent) (options : RecalcOptions σ) (time : DateTime)
    (cells : List (CellAddress × Cell)) (phase : Phase) : Task σ Unit :=
  let chain := protocolChain agent.config options
  runPhaseIn (chain.evaluator agent.report.evaluationDepth).task
    (chain.context agent.report agent.index time phase) cells

/-- The context in which a recalculation visits the cells of the first phase. -/
def base (agent : Agent) (options : RecalcOptions σ) (time : DateTime) : Context :=
  (protocolChain agent.config options).context agent.report agent.index time .execution

/-- The context of a phase is one of the same pass. -/
theorem within_base (agent : Agent) (options : RecalcOptions σ) (time : DateTime) (phase : Phase) :
    (agent.base options time).Within
      ((protocolChain agent.config options).context agent.report agent.index time phase) := rfl

section Visits
variable {agent : Agent} {options : RecalcOptions σ} {time : DateTime} {phase : Phase}
  {cells cells' : List (CellAddress × Cell)} {w w' start : World σ}
  (hsources : options.sources = [])
include hsources

theorem run_visitsTask :
    (agent.visitsTask options time cells phase).run w =
      (agent.visits options time cells phase).run w :=
  Correspondence.visits Task.agreement_settles Task.agreement_recordsLocal (s := fun _ => True)
    (fun cx op _ => ProtocolChain.agrees_protocolChain hsources agent.report.evaluationDepth cx op)
    (fun _ => trivial) _ w

variable (hwf : agent.WellFormed) (hacyclic : agent.report.Acyclic)
include hwf hacyclic

theorem evaluates_base : (agent.base options time).Evaluates
    ((protocolChain agent.config options).evaluator agent.report.evaluationDepth).task
    agent.report.evaluationDepth :=
  Context.evaluator_simulates hacyclic hwf.index rfl
    (ProtocolChain.isBuiltin_protocolChain hsources) _

/-- A phase in any order settles all cells that take part in it. -/
theorem follows_visits (hcells : cells.Perm agent.report.cells)
    (hw : (agent.base options time).Follows phase.rank w.journal)
    (h : (agent.visits options time cells phase).run w = (.ok (), w')) :
    (agent.base options time).Follows (phase.rank + 1) w'.journal := by
  rw [← run_visitsTask hsources] at h
  exact Context.follows_visits hacyclic hwf.report (evaluates_base hsources hwf hacyclic)
    (within_base agent options time phase) (Phase.mem_targetsAmong_iff hcells) hw h

/-- Where a phase begins, the ones before are done, in whatever order they have visited the
cells. -/
theorem follows_of_begins {orders : Phase → List (CellAddress × Cell)}
    (horders : ∀ p, (orders p).Perm agent.report.cells)
    (h : Phase.Begins (fun p => .ofEval (agent.visits options time (orders p) p))
      (ProtocolChain.cleared agent.report time w) phase start) :
    (agent.base options time).Follows phase.rank start.journal := by
  induction h with
  | first => exact Context.follows_clearLogs hwf.report _
  | next _ hrun hnext ih =>
    rw [hnext]
    exact follows_visits hsources hwf hacyclic (horders _) ih hrun

/-- A phase in any order has the result of its visits without a journal, and records outcomes of
this phase only. -/
theorem run_visits (hcells : cells.Perm agent.report.cells)
    (hw : (agent.base options time).Follows phase.rank w.journal) :
    ((agent.visits options time cells phase).run w).1 =
        phase.run (Plain.access (Plain.evaluate agent.report.evaluationDepth))
          ((protocolChain agent.config options).context agent.report agent.index time phase)
          (phase.targetsAmong cells) ∧
      w.journal.Grows (·.phase = phase)
        ((agent.visits options time cells phase).run w).2.journal := by
  have hcx := within_base agent options time phase
  have htargets : ∀ t ∈ phase.targetsAmong cells, t ∈ agent.report.targets phase :=
    fun t => (Phase.mem_targetsAmong_iff hcells t).1
  have hsim := Context.simulation_visits hacyclic hwf.report
    (evaluates_base hsources hwf hacyclic) hcx htargets agent.report.evaluationDepth w hw
  rw [← run_visitsTask hsources]
  refine ⟨?_, hsim.grows_run⟩
  rcases hsim.result with hout | hresult | ⟨hshort, -⟩
  · exact absurd hout
      (Plain.run_ne_outOfFuel hwf.report hacyclic hwf.index hcx (Nat.le_refl _) htargets)
  · exact hresult
  · exact absurd hshort (Nat.lt_irrefl _)

/-- Whether a phase succeeds does not depend on the order. -/
theorem run_visits_eq_ok_iff (hcells : cells.Perm agent.report.cells)
    (hcells' : cells'.Perm agent.report.cells)
    (hw : (agent.base options time).Follows phase.rank w.journal) :
    ((agent.visits options time cells phase).run w).1 = .ok () ↔
      ((agent.visits options time cells' phase).run w).1 = .ok () := by
  rw [(run_visits hsources hwf hacyclic hcells hw).1,
    (run_visits hsources hwf hacyclic hcells' hw).1, Plain.run_eq_ok_iff, Plain.run_eq_ok_iff]
  have same (t : Resolved) : t ∈ phase.targetsAmong cells ↔ t ∈ phase.targetsAmong cells' :=
    (Phase.mem_targetsAmong_iff hcells t).trans (Phase.mem_targetsAmong_iff hcells' t).symm
  exact ⟨fun h t ht => h t ((same t).2 ht), fun h t ht => h t ((same t).1 ht)⟩

end Visits

/-- The order in which a phase visits the cells of an acyclic report does not matter. Wherever the
phase begins, after earlier phases in any order, it succeeds in one order when it succeeds in
another one, and then all logs are the same afterwards. -/
theorem visits_perm {agent : Agent} {options : RecalcOptions σ} {time : DateTime} {phase : Phase}
    {orders : Phase → List (CellAddress × Cell)} {cells cells' : List (CellAddress × Cell)}
    {w start : World σ} (hsources : options.sources = []) (hwf : agent.WellFormed)
    (hacyclic : agent.report.Acyclic) (horders : ∀ p, (orders p).Perm agent.report.cells)
    (hbegins : Phase.Begins (fun p => .ofEval (agent.visits options time (orders p) p))
      (ProtocolChain.cleared agent.report time w) phase start)
    (hcells : cells.Perm agent.report.cells) (hcells' : cells'.Perm agent.report.cells) :
    (((agent.visits options time cells phase).run start).1 = .ok () ↔
        ((agent.visits options time cells' phase).run start).1 = .ok ()) ∧
      (((agent.visits options time cells phase).run start).1 = .ok () →
        ∀ a cell p, agent.report.cellAt? a = some cell → cell.hasLog p = true →
          ((agent.visits options time cells phase).run start).2.journal.logOf p a =
            ((agent.visits options time cells' phase).run start).2.journal.logOf p a) := by
  have hstart := follows_of_begins hsources hwf hacyclic horders hbegins
  have hiff := run_visits_eq_ok_iff hsources hwf hacyclic hcells hcells' hstart
  refine ⟨hiff, fun hok a cell p hcell hlog => ?_⟩
  by_cases hp : p = phase
  · subst hp
    have hfollows := follows_visits hsources hwf hacyclic hcells hstart (Prod.ext hok rfl)
    have hfollows' := follows_visits hsources hwf hacyclic hcells' hstart
      (Prod.ext (hiff.1 hok) rfl)
    exact hfollows.logOf_eq hfollows' hwf.report hacyclic hwf.index hcell hlog (Nat.lt_succ_self _)
  · -- the logs of other phases are as they were at the start
    have hother : ¬ p.logKind.phase = phase := by rwa [Phase.phase_logKind]
    have hgrows := (run_visits hsources hwf hacyclic hcells hstart).2
    have hgrows' := (run_visits hsources hwf hacyclic hcells' hstart).2
    exact (hgrows.log_eq hother).trans (hgrows'.log_eq hother).symm

end Agent

/-! ## A reference to a later cell -/

namespace Forward

variable {op : Operation}

/-- The cell that is read. -/
def source (op : Operation) : OperationCell := ⟨some "source", 1, op, .none⟩

/-- A cell that reads the one after it. -/
def reader : OperationCell :=
  ⟨some "reader", 1, .cellValue (.inSection "source" .none) (.scalar .int), .none⟩

def report (op : Operation) : Report :=
  let row : Row := ⟨"row", [.operation reader, .operation (source op)], [], none, none⟩
  ⟨"report", [⟨"section", "", ⟨[⟨"left", ""⟩, ⟨"right", ""⟩], [], [row], []⟩⟩]⟩

def position : RowPosition := ⟨0, .body, [.child 0]⟩

theorem cells_report : (report op).cells =
    [(⟨position, 0, none⟩, .operation reader), (⟨position, 1, none⟩, .operation (source op))] :=
  rfl

theorem wellFormed : (report op).WellFormed := by
  rw [Report.WellFormed, cells_report]
  simp [Cell.WellFormed]

/-- The only reference leads from the first cell to the second. -/
theorem acyclic (h : ∀ ref, ¬ op.Mentions ref) : (report op).Acyclic := by
  refine Report.acyclic_of_lt (1 - ·.address.cellIndex) fun n m hread => ?_
  obtain ⟨cell, root, ref, target, hcell, hroot, hmentions, htarget, rfl⟩ := hread
  obtain ⟨a, phase⟩ := n
  have hmem : (a, cell) ∈ (report op).cells := (Report.mem_cells_iff wellFormed).2 hcell
  simp only [cells_report, List.mem_cons, Prod.mk.injEq, List.not_mem_nil, or_false] at hmem
  rcases hmem with ⟨rfl, rfl⟩ | ⟨rfl, rfl⟩ <;> cases phase <;> cases hroot
  · obtain ⟨href⟩ | ⟨hx, -⟩ := hmentions
    · cases href
      cases htarget
      exact Nat.zero_lt_one
    · cases hx
  · exact absurd hmentions (h ref)

/-- An agent of the report in which the second cell is constant. -/
def agent : Agent := .ofReport (report (.const (.int 3) (.scalar .int))) .default

/-- Where the first phase of a pass over its report begins. -/
def start : World Unit := ProtocolChain.cleared agent.report ⟨0, 0⟩ ⟨.empty, ()⟩

/-- The two cells may be visited in either order. -/
theorem visits_perm_forward :
    ((agent.visits .none ⟨0, 0⟩ agent.report.cells .execution).run start).1 = .ok () ∧
      ∀ a cell p, agent.report.cellAt? a = some cell → cell.hasLog p = true →
        ((agent.visits .none ⟨0, 0⟩ agent.report.cells .execution).run start).2.journal.logOf p a =
          ((agent.visits .none ⟨0, 0⟩ agent.report.cells.reverse .execution).run
            start).2.journal.logOf p a := by
  have hacyclic : agent.report.Acyclic := acyclic fun ref hmentions => by
    obtain ⟨href⟩ | ⟨hx, -⟩ := hmentions
    · cases href
    · cases hx
  have hok : ((agent.visits .none ⟨0, 0⟩ agent.report.cells .execution).run start).1 = .ok () := rfl
  obtain ⟨-, hlogs⟩ := @Agent.visits_perm Unit agent .none ⟨0, 0⟩ .execution
    (fun _ => agent.report.cells) agent.report.cells agent.report.cells.reverse ⟨.empty, ()⟩ start
    rfl (.ofReport wellFormed .default) hacyclic (fun _ => .refl _) .first (.refl _)
    (List.reverse_perm _)
  exact ⟨hok, hlogs hok⟩

end Forward

end ReportCalc
