import ReportCalc.Agent.Recalculation
import ReportCalc.Proofs.Evaluation.Nodes

/-!
# Settling a cell

What a pass has recorded of a cell already is taken from the journal, and otherwise the outcome is
computed and recorded (`Task.run_settle`). Asking for the value or a verdict of a cell with an
operation or chain settles it, and so does visiting it (`Phase.visit_eq`).
-/

namespace ReportCalc

variable {σ : Type}

namespace Task

variable {α : Type} [PassContent α] {kind : LogKind α} {cx : Context} {target : Resolved}
  {x : Task σ α} {w w' : World σ}

private theorem settle_eq : settle kind cx target x = .step id fun w =>
    (liftM (cx.settled? (w.journal.log kind target.address) target.label) : Task σ _) >>= fun
      | some event => pure event
      | none => x >>= fun outcome =>
        Recording.modifyJournal (·.push kind target.address ⟨cx.time, outcome⟩) >>= fun _ =>
          pure ⟨cx.time, outcome⟩ := rfl

/-- What is settled already is not evaluated; otherwise the outcome is recorded. -/
theorem run_settle : (settle kind cx target x).run w =
    match cx.settled? (w.journal.log kind target.address) target.label with
    | .error e => (.error (.error e), w)
    | .ok (some event) => (.ok event, w)
    | .ok none =>
      match x.run w with
      | (.ok outcome, w) => (.ok ⟨cx.time, outcome⟩,
          { w with journal := w.journal.push kind target.address ⟨cx.time, outcome⟩ })
      | (.error i, w) => (.error i, w) := by
  rw [settle_eq, run, id_eq]
  rcases cx.settled? (w.journal.log kind target.address) target.label with e | (_ | event)
  · rfl
  · exact run_bind x _ w
  · rfl

theorem trace_settle {event : Event α}
    (h : cx.settled? (w.journal.log kind target.address) target.label = .ok (some event)) :
    (settle kind cx target x).trace w = [w, w] := by
  rw [settle_eq, trace, id_eq, h]
  rfl

theorem mem_trace_settle
    (h : cx.settled? (w.journal.log kind target.address) target.label = .ok none)
    (hw : w' ∈ (settle kind cx target x).trace w) :
    w' = w ∨ w' ∈ x.trace w ∨ ∃ outcome, (x.run w).1 = .ok outcome ∧ w' = { (x.run w).2 with
      journal := (x.run w).2.journal.push kind target.address ⟨cx.time, outcome⟩ } := by
  rw [settle_eq, trace, id_eq, h] at hw
  rcases List.mem_cons.1 hw with rfl | hw
  · exact .inl rfl
  · rcases mem_trace_bind (x := x) hw with hw | ⟨outcome, houtcome, hw⟩
    · exact .inr (.inl hw)
    · have hends : w' ∈ [(x.run w).2, { (x.run w).2 with
        journal := (x.run w).2.journal.push kind target.address ⟨cx.time, outcome⟩ }] := hw
      simp only [List.mem_cons, List.not_mem_nil, or_false] at hends
      rcases hends with rfl | rfl
      · exact .inr (.inl (run_mem_trace x w))
      · exact .inr (.inr ⟨outcome, houtcome, rfl⟩)

end Task

/-! ## Access to cells -/

section Cells
variable {m : Type → Type} [Recording m] [LawfulMonad m] {ev : Context → Operation → m Value}
  {cx : Context} {target : Resolved}

theorem executeCell_eq {c : OperationCell} (hc : target.operationCell = .ok c) :
    executeCell ev cx target =
      settle .executions cx target (outcomeOf (ev (cx.enter target) c.operation)) >>= fun event =>
        pure event.content := by
  rw [executeCell, hc]
  exact pure_bind c _

theorem validateCell_eq {rules : CellRules} {chain : ValidationRule}
    (hrules : target.rules = .ok rules) (hchain : rules.validation = some chain) :
    validateCell ev cx target =
      settle .validations cx target (validationOutcome (ev (cx.enter target)) chain) := by
  obtain ⟨_, _⟩ := rules
  cases hchain
  rw [validateCell, hrules]
  exact pure_bind _ _

theorem checkCell_eq {rules : CellRules} {chain : AvailabilityRule}
    (hrules : target.rules = .ok rules) (hchain : rules.availability = some chain) :
    checkCell ev cx target =
      settle .availabilities cx target (availabilityOutcome (ev (cx.enter target)) chain) := by
  obtain ⟨_, _⟩ := rules
  cases hchain
  rw [checkCell, hrules]
  exact pure_bind _ _

/-- A visit settles the cell. -/
theorem Phase.visit_eq {phase : Phase} {rule : phase.Rule}
    (hrule : target.cell.rule? phase = some rule) : phase.visit (.recorded ev) cx target =
      settle phase.logKind cx target (phase.outcome (ev (cx.enter target)) rule) >>= fun _ =>
        pure () := by
  cases phase with
  | execution =>
    obtain ⟨c, hc, rfl⟩ := Resolved.exists_operation_of_rule? hrule
    change (executeCell ev cx target >>= fun _ => pure ()) = _
    rw [executeCell_eq (Resolved.operationCell_eq_ok_iff.2 hc), bind_assoc]
    exact congrArg _ (funext fun _ => pure_bind _ _)
  | validation =>
    obtain ⟨rules, hrules, hchain⟩ := Option.bind_eq_some_iff.1 hrule
    exact congrArg (· >>= fun _ => pure ())
      (validateCell_eq (Resolved.rules_eq_ok_iff.2 hrules) hchain)
  | availability =>
    obtain ⟨rules, hrules, hchain⟩ := Option.bind_eq_some_iff.1 hrule
    exact congrArg (· >>= fun _ => pure ())
      (checkCell_eq (Resolved.rules_eq_ok_iff.2 hrules) hchain)

end Cells

end ReportCalc
