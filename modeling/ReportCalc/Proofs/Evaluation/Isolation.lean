import ReportCalc.Proofs.Evaluation.Likeness
import ReportCalc.Proofs.Report.History

/-!
# What evaluations see of an input

An evaluation sees what an input holds only if its references lead there. Give one input another
value, and the plain evaluation for a node that does not reach the execution of that input comes to
the same as before (`Plain.concurs_evaluate`), and so does the outcome of the node
(`Plain.concurs_outcome`).
-/

namespace ReportCalc

variable {σ α β : Type}

/-! ## Computations that concur -/

/-- The computations come to the same value or error, unless one of them is lost. -/
def Concurs (x y : Except Interrupt α) : Prop := (Lost x ∨ Lost y) ∨ x = y

namespace Concurs

theorem of_ok {a b : α} (h : Concurs (.ok a) (.ok b)) : a = b := by
  rcases h with ((h | ⟨_, h, -⟩) | h | ⟨_, h, -⟩) | h <;> cases h
  rfl

theorem bind {x y : Except Interrupt α} {f g : α → Except Interrupt β} (h : Concurs x y)
    (hf : ∀ a, Concurs (f a) (g a)) : Concurs (x >>= f) (y >>= g) := by
  rcases h with h | rfl
  · exact .inl (h.imp Lost.bind Lost.bind)
  · cases x with
    | error i => exact .inr rfl
    | ok a => exact hf a

theorem rescue {x y : Except Interrupt α} {f g : EvaluationError → Except Interrupt α}
    (h : Concurs x y) (hfatal : ∀ e : EvaluationError, e.isFatal = true →
      f e = Eval.fail e ∧ g e = Eval.fail e) (hf : ∀ e, Concurs (f e) (g e)) :
    Concurs (Eval.rescue x f) (Eval.rescue y g) := by
  rcases h with h | rfl
  · exact .inl (h.imp (·.rescue fun e he => (hfatal e he).1)
      (·.rescue fun e he => (hfatal e he).2))
  · rcases x with (e | _) | a
    · exact hf e
    · exact .inr rfl
    · exact .inr rfl

end Concurs

/-- Computations that concur correspond to each other. Fatal errors, by which they are lost, escape
whatever handles errors. -/
def concurrence : Correspondence (Except Interrupt) (Except Interrupt) where
  Rel := Concurs
  Admits _ := True
  Escapes e := e.isFatal = true
  not_signal := EvaluationError.isSignal_of_isFatal
  pure _ := .inr rfl
  fail _ := .inr rfl
  bind := Concurs.bind
  lift {_ _ x _ _} _ hf := by
    cases x with
    | ok a => exact hf a rfl
    | error e => exact .inr rfl
  rescue hx hescapes hf := hx.rescue hescapes fun e => hf e trivial

theorem concurrence_recordsLocal : concurrence.RecordsLocal :=
  ⟨fun _ _ => trivial, fun _ => id⟩

namespace Plain

theorem own_update {base cx : Context} (hcx : base.Within cx) (u : InputUpdate)
    (chain : ProtocolChain σ) (target : Resolved) (phase : Phase) :
    (cx.change u.change chain).own (target.update u) phase =
      (base.own target phase).change u.change chain := by
  rw [Resolved.update_eq_change, own_change hcx]

/-- The outcomes of what a phase evaluates for a cell are related when inputs hold something
else. -/
def OutcomeRelated (R : Correspondence (Except Interrupt) (Except Interrupt)) (base : Context)
    (u : InputUpdate) (chain : ProtocolChain σ) (l : Nat) (target : Resolved) (phase : Phase) :
    Prop :=
  ∀ rule, target.cell.rule? phase = some rule →
    R.Rel (phase.outcome (evaluate l (base.own target phase)) rule)
      (phase.outcome (evaluate l ((base.own target phase).change u.change chain)) rule)

section Reading
variable {R : Correspondence (Except Interrupt) (Except Interrupt)} (hlocal : R.RecordsLocal)
  {base cx : Context} (hcx : base.Within cx) {u : InputUpdate} {chain : ProtocolChain σ}
  {target : Resolved} {l : Nat}

include hlocal hcx

omit hlocal in
theorem execute_update (h : OutcomeRelated R base u chain l target .execution) {c : OperationCell}
    (hc : target.operationCell = .ok c) :
    R.Rel ((access (evaluate l)).execute cx target)
      ((access (evaluate l)).execute (cx.change u.change chain) (target.update u)) := by
  rw [execute_eq hc, execute_eq (target.operationCell_update.trans hc), own_update hcx, hcx.own_eq]
  exact h c.operation (Resolved.rule?_execution hc)

theorem validate_update (h : OutcomeRelated R base u chain l target .validation) :
    R.Rel ((access (evaluate l)).validate cx target)
      ((access (evaluate l)).validate (cx.change u.change chain) (target.update u)) := by
  simp only [access, target.rules_update, own_update hcx, hcx.own_eq]
  refine hlocal.admits.lift (.rules target) fun rules hrules => ?_
  cases hchain : rules.validation with
  | none => exact R.pure _
  | some rule =>
    have hrule := (Resolved.rule?_validation hrules).trans hchain
    exact R.bind (h rule hrule) fun _ => R.pure _

theorem check_update (h : OutcomeRelated R base u chain l target .availability) :
    R.Rel ((access (evaluate l)).check cx target)
      ((access (evaluate l)).check (cx.change u.change chain) (target.update u)) := by
  simp only [access, target.rules_update, own_update hcx, hcx.own_eq]
  refine hlocal.admits.lift (.rules target) fun rules hrules => ?_
  cases hchain : rules.availability with
  | none => exact R.pure _
  | some rule =>
    have hrule := (Resolved.rule?_availability hrules).trans hchain
    exact R.bind (h rule hrule) fun _ => R.pure _

/-- What is read of a cell is related if its outcome is, and if the cell itself holds what it
held. -/
theorem readsChanged_update {phase : Phase}
    (hheld : phase = .execution → ∀ c, (u.apply target.address c).value = c.value)
    (h : OutcomeRelated R base u chain l target phase) :
    R.ReadsChanged (access (evaluate l)) (access (evaluate l)) cx (cx.change u.change chain) target
      (target.update u) phase := by
  cases phase with
  | execution =>
    constructor
    · intro kind
      have succeeded : succeededValue (target.update u) = succeededValue target := by
        funext o
        cases o <;> simp [succeededValue]
      have check (v : Value) :=
        hlocal.admits.ofExcept (.check kind v ("value of cell " ++ target.label))
      rw [readValue, readValue, target.operationCell_update,
        target.storedValue_update fun c => InputCell.read_eq (hheld rfl c) kind,
        target.label_update, succeeded]
      cases hcell : target.operationCell with
      | ok c =>
        refine R.bind (execute_update hcx h hcell) fun o => ?_
        exact hlocal.admits.lift (.succeededValue target o) fun v _ => check v
      | error e => exact hlocal.admits.lift (.storedValue target kind) fun v _ => check v
    · have stored : storedHasValue (target.update u).cell = storedHasValue target.cell :=
        Cell.storedHasValue_update fun c => InputCell.held_eq (hheld rfl c)
      rw [findValue, findValue, target.operationCell_update, stored]
      cases hcell : target.operationCell with
      | ok c => exact R.bind (execute_update hcx h hcell) fun o => R.pure _
      | error e => exact R.pure _
  | validation =>
    refine fun _ => R.bind (validate_update hlocal hcx h) fun event => ?_
    rw [target.label_update]
    cases event.content with
    | completed v => exact R.pure _
    | _ => exact R.fail (hlocal.admits _ (.noVerdict ..))
  | availability =>
    refine fun _ => R.bind (check_update hlocal hcx h) fun event => ?_
    rw [target.label_update]
    cases event.content with
    | completed a => exact R.pure _
    | _ => exact R.fail (hlocal.admits _ (.noVerdict ..))

end Reading

/-! ## Evaluations -/

section Isolation
variable {base : Context} {u : InputUpdate} {i : CellAddress} {chain : ProtocolChain σ} {l : Nat}

/-- All evaluations with this much fuel for nodes that do not reach the execution of an input concur
when inputs hold something else. -/
def EvaluatesApart (base : Context) (u : InputUpdate) (chain : ProtocolChain σ) (i : CellAddress)
    (l : Nat) : Prop :=
  ∀ {cx n op}, base.Within cx → cx.InNode n op →
    ¬ Relation.TransGen base.report.Reads n ⟨i, .execution⟩ →
      Concurs (evaluate l cx op) (evaluate l (cx.change u.change chain) op)

/-- The outcome of a node that does not reach the input is the same when all evaluations are. -/
theorem EvaluatesApart.outcome (hev : EvaluatesApart base u chain i l) {target : Resolved}
    {phase : Phase} (hcell : base.report.cellAt? target.address = some target.cell)
    (hapart : ¬ Relation.TransGen base.report.Reads ⟨target.address, phase⟩ ⟨i, .execution⟩) :
    OutcomeRelated concurrence base u chain l target phase := fun _ hrule =>
  Correspondence.outcome concurrence_recordsLocal fun _ hx =>
    hev (.own base target phase) (.of_mem_evaluated hcell hrule hx) hapart

variable (hwf : base.report.WellFormed) (hindex : base.index = .build base.report)
  (hu : ∀ b c, b ≠ i → (u.apply b c).value = c.value)
include hwf hindex hu

/-- What the node reads does not reach the input either, and is not the input. -/
theorem EvaluatesApart.rule (hev : EvaluatesApart base u chain i l) {cx : Context} {n : Node}
    {op : Operation} (hcx : base.Within cx) (hop : cx.InNode n op)
    (hapart : ¬ Relation.TransGen base.report.Reads n ⟨i, .execution⟩) :
    Concurs (BuiltinRule.ofTag op.tag (access (evaluate l)) cx op)
      (BuiltinRule.ofTag op.tag (access (evaluate l)) (cx.change u.change chain) op) := by
  refine Correspondence.rule_change (R := concurrence) (fun _ => trivial) (hcx.report_eq ▸ hwf)
    (fun x hx => hev hcx (hop.operand hx) hapart) fun ref href target htarget => ?_
  have hread := hop.reads (by rw [hcx.index_eq, hcx.report_eq, hindex]) href htarget
  have hcell := Context.InNode.cellAt?_eq htarget
  rw [hcx.report_eq] at hread hcell
  rw [← Resolved.update_eq_change]
  refine readsChanged_update concurrence_recordsLocal hcx (fun hphase c => ?_)
    (hev.outcome hcell fun hreaches => hapart (.head hread hreaches))
  refine hu _ c fun hi => hapart (.single ?_)
  rwa [hi, hphase] at hread

/-- The induction is on the fuel. -/
theorem concurs_evaluate (l : Nat) : EvaluatesApart base u chain i l := by
  induction l with
  | zero => exact fun _ _ _ => .inl (.inl (.inl rfl))
  | succ l ih =>
    intro cx n op hcx hop hapart
    have unknown : Lost (Eval.fail (.protocolNotFound op.tag op.kind) : Except Interrupt Value) :=
      .inr ⟨_, rfl, rfl⟩
    rw [evaluate, evaluate]
    split
    · split
      · exact Correspondence.checked concurrence_recordsLocal.admits
          (ih.rule hwf hindex hu hcx hop hapart)
      · exact .inl (.inr unknown)
    · exact .inl (.inl unknown)

/-- A node that does not reach the input has the same outcome. -/
theorem concurs_outcome (l : Nat) {target : Resolved} {phase : Phase} {rule : phase.Rule}
    (hcell : base.report.cellAt? target.address = some target.cell)
    (hrule : target.cell.rule? phase = some rule)
    (hapart : ¬ Relation.TransGen base.report.Reads ⟨target.address, phase⟩ ⟨i, .execution⟩) :
    Concurs (outcome base target phase rule l)
      (outcome (base.change u.change chain) (target.update u) phase rule l) := by
  have hev : EvaluatesApart base u chain i l := concurs_evaluate hwf hindex hu l
  have related := hev.outcome hcell hapart rule hrule
  rwa [← own_update (.refl base)] at related

end Isolation

end Plain

end ReportCalc
