import ReportCalc.Proofs.Evaluation.Plain
import ReportCalc.Proofs.Evaluation.Settling

/-!
# The journal as a memo table

During a pass the journal remembers what has been evaluated, and evaluations take from it what is
there already. In an acyclic report this makes no difference: whatever a pass records is what the
plain evaluation gives, and it records it once (`Journal.Follows`, the invariant of a pass). So an
evaluation with the journal simulates the plain one (`Context.evaluator_simulates`), wherever it is
suspended on the way.
-/

namespace ReportCalc

variable {σ α : Type}

/-! ## The logs of a pass -/

/-- The position of a phase in a pass. -/
def Phase.rank : Phase → Nat
  | .execution => 0
  | .validation => 1
  | .availability => 2

theorem Phase.rank_injective {p q : Phase} (h : p.rank = q.rank) : p = q := by
  cases p <;> cases q <;> first | rfl | cases h

namespace Journal

variable {j k : Journal} {time : DateTime} {phase : Phase} {a : CellAddress}

/-- The pass has recorded nothing in the log yet: it holds the marker of the start only. -/
def Fresh (j : Journal) (time : DateTime) (phase : Phase) (a : CellAddress) : Prop :=
  (j.logOf phase a).events = [PassContent.marker passReason time]

/-- The pass has recorded this outcome in the log: it follows the marker of the start. -/
structure Settled (j : Journal) (time : DateTime) (phase : Phase) (a : CellAddress)
    (outcome : phase.Outcome) : Prop where
  events : (j.logOf phase a).events = [PassContent.marker passReason time, ⟨time, outcome⟩]
  isCleared : PassContent.isCleared outcome = false

theorem Fresh.congr (h : j.Fresh time phase a) (hlog : k.logOf phase a = j.logOf phase a) :
    k.Fresh time phase a := (congrArg EventLog.events hlog).trans h

theorem Settled.congr {outcome : phase.Outcome} (h : j.Settled time phase a outcome)
    (hlog : k.logOf phase a = j.logOf phase a) : k.Settled time phase a outcome :=
  ⟨(congrArg EventLog.events hlog).trans h.events, h.isCleared⟩

/-- An outcome that is pushed onto a fresh log settles it. -/
theorem Fresh.settled_push {outcome : phase.Outcome} (h : j.Fresh time phase a)
    (hcleared : PassContent.isCleared outcome = false) :
    (j.push phase.logKind a ⟨time, outcome⟩).Settled time phase a outcome :=
  ⟨by rw [logOf, log_push, EventLog.push]; exact congrArg (· ++ _) h, hcleared⟩

/-- A log of the pass that is settled already is taken as it is. -/
theorem Settled.settled?_eq {cx : Context} {outcome : phase.Outcome} {label : String}
    (h : j.Settled cx.time phase a outcome) :
    cx.settled? (j.log phase.logKind a) label = .ok (some ⟨cx.time, outcome⟩) := by
  have last : (j.log phase.logKind a).last? = some ⟨cx.time, outcome⟩ :=
    congrArg List.getLast? h.events
  have same : (cx.time == cx.time) = true := beq_self_eq_true cx.time.instant
  simp only [Context.settled?, last, h.isCleared, same, Bool.false_eq_true, if_false, if_true]

theorem Fresh.settled?_eq {cx : Context} {label : String} (h : j.Fresh cx.time phase a) :
    cx.settled? (j.log phase.logKind a) label = .ok none := by
  have last : (j.log phase.logKind a).last? = some (PassContent.marker passReason cx.time) :=
    congrArg List.getLast? h
  simp only [Context.settled?, last, PassContent.marker, PassContent.isCleared_cleared, if_true]

end Journal

/-! ## The invariant of a pass -/

/-- The journal has the outcome of the rule that the plain evaluation gives, unless that is given
too little fuel. -/
def Context.Records (base : Context) (j : Journal) (target : Resolved) (phase : Phase)
    (rule : phase.Rule) : Prop :=
  ∃ outcome, j.Settled base.time phase target.address outcome ∧ ∀ fuel,
    Plain.outcome base target phase rule fuel = .error .outOfFuel ∨
      Plain.outcome base target phase rule fuel = .ok outcome

/-- The journal of a pass of which the first phases are done: the logs of all their cells are
settled as the plain evaluation has it, the other ones are settled so or still fresh, and nothing is
recorded for cells without an operation or chain. -/
structure Context.Follows (base : Context) (done : Nat) (j : Journal) : Prop where
  fresh : ∀ {a cell phase}, base.report.cellAt? a = some cell → cell.hasLog phase = true →
    cell.rule? phase = none → j.Fresh base.time phase a
  recorded : ∀ {a cell phase rule}, base.report.cellAt? a = some cell →
    cell.rule? phase = some rule → base.Records j ⟨a, cell⟩ phase rule ∨
      done ≤ phase.rank ∧ j.Fresh base.time phase a

namespace Context

variable {base : Context} {done : Nat} {j k : Journal}

theorem Records.congr {target : Resolved} {phase : Phase} {rule : phase.Rule}
    (h : base.Records j target phase rule)
    (hlog : k.logOf phase target.address = j.logOf phase target.address) :
    base.Records k target phase rule := by
  obtain ⟨outcome, hsettled, hplain⟩ := h
  exact ⟨outcome, hsettled.congr hlog, hplain⟩

/-- Recording the outcome of a node that was fresh keeps the invariant. -/
theorem Follows.push (h : base.Follows done j) {target : Resolved} {phase : Phase}
    {rule : phase.Rule} {outcome : phase.Outcome}
    (hcell : base.report.cellAt? target.address = some target.cell)
    (hrule : target.cell.rule? phase = some rule)
    (hfresh : j.Fresh base.time phase target.address)
    (hcleared : PassContent.isCleared outcome = false)
    (hplain : ∀ fuel, Plain.outcome base target phase rule fuel = .error .outOfFuel ∨
      Plain.outcome base target phase rule fuel = .ok outcome) :
    base.Follows done (j.push phase.logKind target.address ⟨base.time, outcome⟩) := by
  have other {a : CellAddress} {p : Phase} (hne : (⟨target.address, phase⟩ : Node) ≠ ⟨a, p⟩) :
      (j.push phase.logKind target.address ⟨base.time, outcome⟩).logOf p a = j.logOf p a := by
    refine Journal.log_append_of_ne ?_
    rwa [Journal.node_record, Phase.phase_logKind, Phase.phase_logKind]
  constructor
  · intro a cell p hfound hlog hnone
    refine (h.fresh hfound hlog hnone).congr (other ?_)
    rintro ⟨⟩
    rw [hcell] at hfound
    cases hfound
    rw [hrule] at hnone
    cases hnone
  · intro a cell p r hfound hr
    by_cases hne : (⟨target.address, phase⟩ : Node) = ⟨a, p⟩
    · cases hne
      rw [hcell] at hfound
      cases hfound
      rw [hrule] at hr
      cases hr
      exact .inl ⟨outcome, hfresh.settled_push hcleared, hplain⟩
    · refine (h.recorded hfound hr).imp (·.congr (other hne)) fun hlater => ?_
      exact ⟨hlater.1, hlater.2.congr (other hne)⟩

end Context

/-! ## Simulation -/

namespace Context

variable {β : Type} {base : Context} {done : Nat} {s t : Node → Prop} {short : Prop}

/-- From a world of the pass, a task keeps the invariant wherever it is suspended, records in these
logs only, and has the result of a plain computation, unless this one runs out of fuel or the task
itself is short of it. -/
structure Simulates (base : Context) (done : Nat) (s : Node → Prop) (short : Prop) (x : Task σ α)
    (y : Except Interrupt α) (w : World σ) : Prop where
  follows : ∀ w' ∈ x.trace w, base.Follows done w'.journal
  grows : ∀ w' ∈ x.trace w, w.journal.Grows s w'.journal
  result : y = .error .outOfFuel ∨ (x.run w).1 = y ∨ short ∧ (x.run w).1 = .error .outOfFuel

namespace Simulates

variable {w : World σ} {x : Task σ α} {y : Except Interrupt α} {f : α → Task σ β}
  {g : α → Except Interrupt β}

theorem of_done {result : Except Interrupt α} (hw : base.Follows done w.journal)
    (h : y = .error .outOfFuel ∨ result = y ∨ short ∧ result = .error .outOfFuel) :
    base.Simulates done s short (.done result) y w where
  follows w' hw' := by
    cases List.mem_singleton.1 hw'
    exact hw
  grows w' hw' := by
    cases List.mem_singleton.1 hw'
    exact .refl s _
  result := h

theorem mono (h : base.Simulates done s short x y w) (hst : ∀ n, s n → t n) :
    base.Simulates done t short x y w where
  follows := h.follows
  grows w' hw' := (h.grows w' hw').mono hst
  result := h.result

theorem follows_run (h : base.Simulates done s short x y w) :
    base.Follows done (x.run w).2.journal := h.follows _ (x.run_mem_trace w)

theorem grows_run (h : base.Simulates done s short x y w) :
    w.journal.Grows s (x.run w).2.journal := h.grows _ (x.run_mem_trace w)

theorem bind (h : base.Simulates done s short x y w)
    (hf : ∀ a w, base.Follows done w.journal → base.Simulates done s short (f a) (g a) w) :
    base.Simulates done s short (x >>= f) (y >>= g) w where
  follows w' hw' := by
    rcases Task.mem_trace_bind hw' with hw' | ⟨a, -, hw'⟩
    · exact h.follows w' hw'
    · exact (hf a _ h.follows_run).follows w' hw'
  grows w' hw' := by
    rcases Task.mem_trace_bind hw' with hw' | ⟨a, -, hw'⟩
    · exact h.grows w' hw'
    · exact h.grows_run.trans ((hf a _ h.follows_run).grows w' hw')
  result := by
    have hrest := fun a => (hf a _ h.follows_run).result
    have hresult := h.result
    rw [Task.run_bind]
    generalize x.run w = r at hrest hresult
    obtain ⟨result, w⟩ := r
    rcases hresult with rfl | rfl | ⟨hshort, rfl⟩
    · exact .inl rfl
    · cases result with
      | ok a => exact hrest a
      | error i => exact .inr (.inl rfl)
    · exact .inr (.inr ⟨hshort, rfl⟩)

theorem rescue {f : EvaluationError → Task σ α} {g : EvaluationError → Except Interrupt α}
    (h : base.Simulates done s short x y w)
    (hf : ∀ e w, base.Follows done w.journal → base.Simulates done s short (f e) (g e) w) :
    base.Simulates done s short (Eval.rescue x f) (Eval.rescue y g) w where
  follows w' hw' := by
    rcases Task.mem_trace_rescue hw' with hw' | ⟨e, -, hw'⟩
    · exact h.follows w' hw'
    · exact (hf e _ h.follows_run).follows w' hw'
  grows w' hw' := by
    rcases Task.mem_trace_rescue hw' with hw' | ⟨e, -, hw'⟩
    · exact h.grows w' hw'
    · exact h.grows_run.trans ((hf e _ h.follows_run).grows w' hw')
  result := by
    have hrest := fun e => (hf e _ h.follows_run).result
    have hresult := h.result
    rw [Task.run_rescue]
    generalize x.run w = r at hrest hresult
    obtain ⟨result, w⟩ := r
    rcases hresult with rfl | rfl | ⟨hshort, rfl⟩
    · exact .inl rfl
    · rcases result with (e | _) | a
      · exact hrest e
      · exact .inl rfl
      · exact .inr (.inl rfl)
    · exact .inr (.inr ⟨hshort, rfl⟩)

end Simulates

/-- Tasks that simulate plain computations from all worlds of the pass correspond to them. -/
def simulation (base : Context) (done : Nat) (s : Node → Prop) (short : Prop) :
    Correspondence (Task σ) (Except Interrupt) where
  Rel x y := ∀ w : World σ, base.Follows done w.journal → base.Simulates done s short x y w
  Admits _ := True
  Escapes _ := False
  not_signal := @EvaluationError.isSignal_of_false
  pure _ _ hw := .of_done hw (.inr (.inl rfl))
  fail _ _ hw := .of_done hw (.inr (.inl rfl))
  bind hx hf w hw := (hx w hw).bind hf
  lift {_ _ x _ _} _ hf w hw := by
    cases x with
    | ok a => exact hf a rfl w hw
    | error e => exact .of_done hw (.inr (.inl rfl))
  rescue hx _ hf w hw := (hx w hw).rescue fun e => hf e trivial

theorem simulation_recordsLocal :
    (base.simulation done s short : Correspondence (Task σ) (Except Interrupt)).RecordsLocal :=
  ⟨fun _ _ => trivial, fun _ => False.elim⟩

/-! ### Cells -/

/-- The nodes of the same phase that lie below a node. -/
def below (base : Context) (n : Node) : Node → Prop := fun m =>
  Relation.TransGen base.report.Reads n m ∧ m.phase = n.phase

section Settle
variable {cx : Context} {target : Resolved} {phase : Phase} {rule : phase.Rule}
  {ev : Operation → Task σ Value} {fuel : Nat} {w : World σ}

/-- A node that is recorded already has its plain outcome. -/
theorem Simulates.settle_of_records (htime : cx.time = base.time) (hw : base.Follows done w.journal)
    (h : base.Records w.journal target phase rule) (l : Nat) :
    base.Simulates done s short (settle phase.logKind cx target (phase.outcome ev rule))
      (do return ⟨cx.time, ← Plain.outcome base target phase rule l⟩) w := by
  obtain ⟨outcome, hsettled, hplain⟩ := h
  rw [← htime] at hsettled
  have hfound : cx.settled? (w.journal.log phase.logKind target.address) target.label = _ :=
    hsettled.settled?_eq
  have stays : ∀ w' ∈ (settle phase.logKind cx target (phase.outcome ev rule)).trace w, w' = w := by
    simp [Task.trace_settle hfound]
  refine ⟨fun w' hw' => stays w' hw' ▸ hw, fun w' hw' => stays w' hw' ▸ .refl s _, ?_⟩
  rw [Task.run_settle, hfound]
  rcases hplain l with hl | hl <;> rw [hl]
  · exact .inl rfl
  · exact .inr (.inl rfl)

/-- A node that is fresh is given its plain outcome. The computation only records below the node, so
the log of the node is still fresh when its outcome is recorded. -/
theorem Simulates.settle_of_fresh (hacyclic : base.report.Acyclic) (htime : cx.time = base.time)
    (hcell : base.report.cellAt? target.address = some target.cell)
    (hrule : target.cell.rule? phase = some rule) (hw : base.Follows done w.journal)
    (hfresh : w.journal.Fresh base.time phase target.address)
    (h : ∀ l, base.Simulates done (base.below ⟨target.address, phase⟩) (fuel < l)
      (phase.outcome ev rule) (Plain.outcome base target phase rule l) w)
    (hown : s ⟨target.address, phase⟩) (hbelow : ∀ m, base.below ⟨target.address, phase⟩ m → s m)
    (l : Nat) :
    base.Simulates done s (fuel < l) (settle phase.logKind cx target (phase.outcome ev rule))
      (do return ⟨cx.time, ← Plain.outcome base target phase rule l⟩) w := by
  have hnone : cx.settled? (w.journal.log phase.logKind target.address) target.label = .ok none :=
    (htime ▸ hfresh : w.journal.Fresh cx.time phase target.address).settled?_eq
  have still : ((phase.outcome ev rule).run w).2.journal.Fresh base.time phase target.address := by
    -- only nodes below are recorded, and in an acyclic report a node is not below itself
    refine hfresh.congr ((h l).grows_run.log_eq fun hcycle => ?_)
    rw [Phase.phase_logKind] at hcycle
    exact hacyclic _ hcycle.1
  have plain {outcome : phase.Outcome} (houtcome : ((phase.outcome ev rule).run w).1 = .ok outcome)
      (l : Nat) : Plain.outcome base target phase rule l = .error .outOfFuel ∨
        Plain.outcome base target phase rule l = .ok outcome := by
    rcases (h l).result with hl | hl | ⟨-, hl⟩
    · exact .inl hl
    · exact .inr (hl.symm.trans houtcome)
    · cases houtcome.symm.trans hl
  constructor
  · intro w' hw'
    rcases Task.mem_trace_settle hnone hw' with rfl | hw' | ⟨outcome, houtcome, rfl⟩
    · exact hw
    · exact (h l).follows w' hw'
    · rw [htime]
      exact (h l).follows_run.push hcell hrule still (Task.isCleared_outcome houtcome)
        (plain houtcome)
  · intro w' hw'
    rcases Task.mem_trace_settle hnone hw' with rfl | hw' | ⟨outcome, houtcome, rfl⟩
    · exact .refl s _
    · exact ((h l).mono hbelow).grows w' hw'
    · refine ((h l).mono hbelow).grows_run.trans (.append ?_)
      rwa [Journal.node_record, Phase.phase_logKind]
  · rw [Task.run_settle, hnone]
    have hresult := (h l).result
    generalize (phase.outcome ev rule).run w = r at hresult
    obtain ⟨result, w⟩ := r
    rcases hresult with hl | hl | ⟨hshort, hl⟩
    · rw [hl]
      exact .inl rfl
    · rw [← hl]
      cases result with
      | ok outcome => exact .inr (.inl rfl)
      | error i => exact .inr (.inl rfl)
    · cases hl
      exact .inr (.inr ⟨hshort, rfl⟩)

/-- Reading a node of the same or an earlier phase is related to evaluating it from scratch when
settling it is. -/
theorem reads_of_settle {n : Type → Type} [Interruptible n] [LawfulMonad n]
    {R : Correspondence (Task σ) n} (hlocal : R.AdmitsLocal)
    {ev : Context → Operation → Task σ Value} {ev' : Context → Operation → n Value}
    (h : phase.rank ≤ cx.phase.rank → ∀ rule, target.cell.rule? phase = some rule →
      R.Rel (settle phase.logKind cx target (phase.outcome (ev (cx.enter target)) rule))
        (do return ⟨cx.time, ← phase.outcome (ev' (cx.own target phase)) rule⟩)) :
    R.Reads (.recorded ev) (Plain.access ev') cx target phase := by
  cases phase with
  | execution =>
    refine fun _ _ => hlocal.lift (.operationCell target) fun c hc => ?_
    have hsettle := R.bind (h (Nat.zero_le _) _ (Resolved.rule?_execution hc)) fun event =>
      R.pure event.content
    have content (y : n ExecutionOutcome) :
        (do let outcome ← y; return (⟨cx.time, outcome⟩ : ExecutionEvent)) >>= (fun event =>
          pure event.content) = y := by
      simp
    rw [content] at hsettle
    exact hsettle
  | validation =>
    refine fun hphase => hlocal.lift (.rules target) fun rules hrules => ?_
    have hrank : Phase.validation.rank ≤ cx.phase.rank := by
      revert hphase
      cases cx.phase <;> decide
    cases hchain : rules.validation with
    | none => exact R.pure _
    | some chain => exact h hrank _ ((Resolved.rule?_validation hrules).trans hchain)
  | availability =>
    refine fun hphase => hlocal.lift (.rules target) fun rules hrules => ?_
    cases hchain : rules.availability with
    | none => exact R.pure _
    | some chain =>
      exact h (hphase ▸ Nat.le_refl _) _ ((Resolved.rule?_availability hrules).trans hchain)

end Settle

/-! ### Operations -/

/-- The evaluations of the operations of all nodes simulate the plain ones. -/
def Evaluates (base : Context) (ev : Context → Operation → Task σ Value) (fuel : Nat) : Prop :=
  ∀ cx n op, base.Within cx → cx.InNode n op → ∀ l,
    (base.simulation n.phase.rank (base.below n) (fuel < l)).Rel (ev cx op) (Plain.evaluate l cx op)

section Evaluates
variable {ev : Context → Operation → Task σ Value} {fuel : Nat} {cx : Context} {target : Resolved}
  {phase : Phase} (hacyclic : base.report.Acyclic) (hev : base.Evaluates ev fuel)
  (hcx : base.Within cx) (hcell : base.report.cellAt? target.address = some target.cell)
  (hs : phase = cx.phase → s ⟨target.address, phase⟩ ∧
    ∀ m, base.below ⟨target.address, phase⟩ m → s m)
include hacyclic hev hcx hcell hs

/-- A node of an earlier phase is recorded already; a node of this phase may be settled now. -/
theorem simulation_settle (hrank : phase.rank ≤ cx.phase.rank) {rule : phase.Rule}
    (hrule : target.cell.rule? phase = some rule) (l : Nat) :
    (base.simulation cx.phase.rank s (fuel < l)).Rel
      (settle phase.logKind cx target (phase.outcome (ev (cx.enter target)) rule))
      (do return ⟨cx.time, ← phase.outcome (Plain.evaluate l (cx.own target phase)) rule⟩) := by
  intro w hw
  rw [hcx.own_eq]
  rcases hw.recorded hcell hrule with hrecords | ⟨hlater, hfresh⟩
  · exact .settle_of_records hcx.time_eq hw hrecords l
  · have hphase : phase = cx.phase := Phase.rank_injective (Nat.le_antisymm hrank hlater)
    obtain ⟨hown, hbelow⟩ := hs hphase
    -- here the context in which the cell is entered is the node's own
    rw [hcx.enter_eq, ← hphase]
    rw [← hphase] at hw
    refine .settle_of_fresh hacyclic hcx.time_eq hcell hrule hw hfresh (fun l => ?_) hown hbelow l
    exact Correspondence.outcome simulation_recordsLocal (fun x hx =>
      hev _ _ x (.own base target phase) (.of_mem_evaluated hcell hrule hx) l) w hw

/-- Reading a node through the journal corresponds to evaluating it from scratch. -/
theorem simulation_reads (l : Nat) :
    (base.simulation cx.phase.rank s (fuel < l)).Reads (.recorded ev)
      (Plain.access (Plain.evaluate l)) cx target phase :=
  reads_of_settle simulation_recordsLocal.admits fun hrank _ hrule =>
    simulation_settle hacyclic hev hcx hcell hs hrank hrule l

end Evaluates

section Evaluator
variable {chain : ProtocolChain σ} (hacyclic : base.report.Acyclic)
  (hindex : base.index = .build base.report)
include hacyclic hindex

/-- What an operation of a node reads lies below the node. -/
theorem simulation_rule {ev : Context → Operation → Task σ Value} {fuel : Nat}
    (hev : base.Evaluates ev fuel) {cx : Context} {n : Node} {op : Operation} (hcx : base.Within cx)
    (hop : cx.InNode n op) (l : Nat) :
    (base.simulation n.phase.rank (base.below n) (fuel < l)).Rel
      (BuiltinRule.ofTag op.tag (.recorded ev) cx op)
      (BuiltinRule.ofTag op.tag (Plain.access (Plain.evaluate l)) cx op) := by
  refine Correspondence.rule (fun _ _ => trivial) (fun x hx => hev cx n x hcx (hop.operand hx) l)
    fun ref href target htarget => ?_
  have hread := hop.reads (by rw [hcx.index_eq, hcx.report_eq, hindex]) href htarget
  have hcell := Context.InNode.cellAt?_eq htarget
  rw [hcx.report_eq] at hread hcell
  rw [← hop.phase]
  refine simulation_reads hacyclic hev hcx hcell (fun hphase => ?_) l
  have hphase : ref.phase = n.phase := hphase.trans hop.phase
  exact ⟨⟨.single hread, hphase⟩, fun m hm => ⟨.head hread hm.1, hm.2.trans hphase⟩⟩

/-- The induction is on the fuel of the task. -/
theorem evaluator_simulates (hknows : base.knows = chain.knows) (hchain : chain.IsBuiltin)
    (fuel : Nat) : base.Evaluates (chain.evaluator fuel).task fuel := by
  induction fuel with
  | zero =>
    intro cx n op hcx hop l w hw
    refine .of_done hw ?_
    cases l with
    | zero => exact .inl rfl
    | succ l => exact .inr (.inr ⟨Nat.succ_pos l, rfl⟩)
  | succ fuel ih =>
    intro cx n op hcx hop l
    have succ (l : Nat) : (base.simulation n.phase.rank (base.below n) (fuel + 1 < l + 1)).Rel
        ((chain.evaluator (fuel + 1)).task cx op) (Plain.evaluate (l + 1) cx op) := by
      rw [Nat.succ_lt_succ_iff]
      change (base.simulation _ _ _).Rel (chain.dispatch op _) _
      rw [ProtocolChain.dispatch, ProtocolChain.resolve, Plain.evaluate, hcx.knows_eq, hknows,
        ProtocolChain.knows]
      cases hlookup : chain.lookup (.of op) with
      | none => exact Correspondence.fail _ trivial
      | some protocol =>
        obtain rfl := hchain _ _ hlookup
        have hrule := simulation_rule hacyclic hindex ih hcx hop l
        exact Correspondence.checked simulation_recordsLocal.admits hrule
    -- what a task records does not depend on the fuel of the plain evaluation
    cases l with
    | zero => exact fun w hw => ⟨(succ 0 w hw).follows, (succ 0 w hw).grows, .inl rfl⟩
    | succ l => exact succ l

end Evaluator

end Context

end ReportCalc
