import ReportCalc.Proofs.Evaluation.Suspension

/-!
# What evaluations keep

A property of the journal is kept by a computation when it holds afterwards, however the computation
ends, if it has held before (`Preserves`). Where evaluations settle cells by recording outcomes, it
must be kept by recording them (`Maintains.settle`). A protocol that keeps whatever the evaluations
that it may ask for keep is one that writes no logs itself (`Protocol.WritesNoLogs`).
-/

namespace ReportCalc

variable {σ α β : Type} {I : Journal → Prop} {P : β → Prop} {Q : α → Prop}

/-! ## Computations that keep a property -/

/-- The computation keeps a property of the journal, however it ends, and its value, if it has one,
has another property. -/
def Preserves (I : Journal → Prop) (Q : α → Prop)
    (run : World σ → Except Interrupt α × World σ) : Prop :=
  ∀ w, I w.journal → I (run w).2.journal ∧ ∀ a, (run w).1 = .ok a → Q a

namespace Preserves

variable {run : World σ → Except Interrupt α × World σ}

theorem pure {a : α} (h : Q a) : Preserves (σ := σ) I Q fun w => (.ok a, w) := by
  intro w hw
  refine ⟨hw, ?_⟩
  rintro _ ⟨⟩
  exact h

theorem error (i : Interrupt) : Preserves (σ := σ) I Q fun w => (.error i, w) :=
  fun _ hw => ⟨hw, nofun⟩

theorem bind {next : α → World σ → Except Interrupt β × World σ} (h : Preserves I Q run)
    (hnext : ∀ a, Q a → Preserves I P (next a)) :
    Preserves I P fun w => match run w with
      | (.ok a, w) => next a w
      | (.error i, w) => (.error i, w) := by
  intro w hw
  obtain ⟨hjournal, hvalue⟩ := h w hw
  dsimp only
  rcases hrun : run w with ⟨i | a, w'⟩ <;> rw [hrun] at hjournal hvalue
  · exact ⟨hjournal, fun _ => nofun⟩
  · exact hnext a (hvalue a rfl) w' hjournal

theorem rescue {handle : EvaluationError → World σ → Except Interrupt α × World σ}
    (h : Preserves I Q run) (hhandle : ∀ e, Preserves I Q (handle e)) :
    Preserves I Q fun w => match run w with
      | (.error (.error e), w) => handle e w
      | r => r := by
  intro w hw
  obtain ⟨hjournal, hvalue⟩ := h w hw
  dsimp only
  rcases hrun : run w with ⟨(e | _) | a, w'⟩ <;> rw [hrun] at hjournal hvalue
  · exact hhandle e w' hjournal
  · exact ⟨hjournal, hvalue⟩
  · exact ⟨hjournal, hvalue⟩

end Preserves

/-- A task and an evaluation in one go both keep the property of the journal, and have values with
the property. -/
structure Maintains (I : Journal → Prop) (Q : α → Prop) (x : Task σ α) (y : Eval σ α) : Prop where
  task : Preserves I Q x.run
  run : Preserves I Q y.run

namespace Maintains

variable {x : Task σ α} {y : Eval σ α}

theorem pure {a : α} (h : Q a) : Maintains (σ := σ) I Q (pure a) (pure a) :=
  ⟨.pure h, .pure h⟩

theorem fail (e : EvaluationError) : Maintains (σ := σ) I Q (Eval.fail e) (Eval.fail e) :=
  ⟨.error _, .error _⟩

theorem outOfFuel : Maintains (σ := σ) I Q Eval.outOfFuel Eval.outOfFuel := ⟨.error _, .error _⟩

theorem bind {f : α → Task σ β} {g : α → Eval σ β} (h : Maintains I Q x y)
    (hf : ∀ a, Q a → Maintains I P (f a) (g a)) : Maintains I P (x >>= f) (y >>= g) := by
  constructor
  · rw [funext (Task.run_bind x f)]
    exact h.task.bind fun a ha => (hf a ha).task
  · rw [funext (Eval.run_bind y g)]
    exact h.run.bind fun a ha => (hf a ha).run

theorem rescue {f : EvaluationError → Task σ α} {g : EvaluationError → Eval σ α}
    (h : Maintains I Q x y) (hf : ∀ e, Maintains I Q (f e) (g e)) :
    Maintains I Q (Eval.rescue x f) (Eval.rescue y g) := by
  constructor
  · rw [funext (Task.run_rescue x f)]
    exact h.task.rescue fun e => (hf e).task
  · rw [funext (Eval.run_rescue y g)]
    exact h.run.rescue fun e => (hf e).run

theorem ofExcept {r : Except EvaluationError α} (h : ∀ a, r = .ok a → Q a) :
    Maintains (σ := σ) I Q (liftM r) (liftM r) := by
  cases r with
  | ok a => exact .pure (h a rfl)
  | error e => exact .fail e

theorem modifyJournal {f : Journal → Journal} (h : ∀ j, I j → I (f j)) :
    Maintains (σ := σ) I (fun _ => True) (Recording.modifyJournal f) (Recording.modifyJournal f) :=
  ⟨fun _ hw => ⟨h _ hw, fun _ _ => trivial⟩, fun _ hw => ⟨h _ hw, fun _ _ => trivial⟩⟩

theorem journal :
    Maintains (σ := σ) I (fun _ => True) Recording.journal Recording.journal :=
  ⟨fun _ hw => ⟨hw, fun _ _ => trivial⟩, fun _ hw => ⟨hw, fun _ _ => trivial⟩⟩

/-- Nothing is asked of the journal or of the value. -/
theorem any : Maintains (fun _ => True) (fun _ => True) x y :=
  ⟨fun _ _ => ⟨trivial, fun _ _ => trivial⟩, fun _ _ => ⟨trivial, fun _ _ => trivial⟩⟩

/-- What is known of values without the journal is known of them with it. -/
theorem withValue (h : Maintains I (fun _ => True) x y) (hvalue : Maintains (fun _ => True) Q x y) :
    Maintains I Q x y :=
  ⟨fun w hw => ⟨(h.task w hw).1, (hvalue.task w trivial).2⟩,
    fun w hw => ⟨(h.run w hw).1, (hvalue.run w trivial).2⟩⟩

end Maintains

/-- Evaluations that keep a property of the journal, as a correspondence between both ways to run
them. -/
def keeping (I : Journal → Prop) : Correspondence (Task σ) (Eval σ) where
  Rel x y := Maintains I (fun _ => True) x y
  Admits _ := True
  Escapes _ := False
  not_signal := @EvaluationError.isSignal_of_false
  pure _ := .pure trivial
  fail _ := .fail _
  bind h hf := h.bind fun a _ => hf a
  lift {_ _ r _ _} _ hf := by
    cases r with
    | ok a => exact hf a rfl
    | error e => exact .fail e
  rescue h _ hf := h.rescue fun e => hf e trivial

theorem keeping_recordsLocal : (keeping I : Correspondence (Task σ) (Eval σ)).RecordsLocal :=
  ⟨fun _ _ => trivial, fun _ => False.elim⟩

/-- Settling a cell keeps a property that computing the outcome and recording it keep. -/
theorem Maintains.settle {phase : Phase} {cx : Context} {target : Resolved}
    {P : phase.Outcome → Prop} {x : Task σ phase.Outcome} {y : Eval σ phase.Outcome}
    (h : Maintains I P x y) (hpush : ∀ outcome, P outcome → ∀ j, I j →
      I (j.push phase.logKind target.address ⟨cx.time, outcome⟩)) :
    (keeping I).Rel (settle phase.logKind cx target x) (settle phase.logKind cx target y) := by
  refine (keeping I).bind .journal fun journal => (keeping I).lift (fun _ _ => trivial) ?_
  intro settled _
  cases settled with
  | some event => exact (keeping I).pure _
  | none =>
    refine h.bind fun outcome houtcome => ?_
    exact (keeping I).bind (.modifyJournal (hpush outcome houtcome)) fun _ => (keeping I).pure _

/-! ## Evaluators -/

/-- All evaluations over a report keep the property: those of operations, and those of the nodes of
its cells. -/
structure Evaluator.Keeps (ev : Evaluator σ) (r : Report) (I : Journal → Prop) : Prop where
  evaluate : ∀ cx op, cx.report = r → (keeping I).Rel (ev.task cx op) (ev.run cx op)
  visit : ∀ cx (phase : Phase) target, cx.report = r →
    r.cellAt? target.address = some target.cell →
      (keeping I).Rel (phase.visit (.recorded ev.task) cx target)
        (phase.visit (.recorded ev.run) cx target)

/-- The protocol writes no logs itself: whatever all evaluations of operations and of nodes keep is
kept by it, so that what becomes of the journal is the work of these alone. -/
def Protocol.WritesNoLogs (protocol : Protocol σ) : Prop :=
  ∀ (ev : Evaluator σ) (r : Report) (I : Journal → Prop), ev.Keeps r I → ∀ cx op, cx.report = r →
    (keeping I).Rel (protocol.task ev cx op) (protocol.run ev cx op)

/-- All protocols of the source write no logs themselves. -/
def ProtocolSource.WritesNoLogs (source : ProtocolSource σ) : Prop :=
  ∀ key protocol, source key = some protocol → protocol.WritesNoLogs

end ReportCalc
