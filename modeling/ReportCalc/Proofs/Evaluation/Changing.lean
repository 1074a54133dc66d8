import ReportCalc.Proofs.Evaluation.Plain

/-!
# Evaluating in a changed report

When cells of a report are changed in place, every context has a counterpart over the changed report
(`Context.change`), in which locators mean the same places. So a rule is related to itself in the
changed report as soon as its operands and what it reads of other cells are
(`Correspondence.rule_change`).
-/

namespace ReportCalc

variable {σ α β : Type} {u : CellChange} {chain : ProtocolChain σ}

namespace Context

variable {cx : Context} {locator : Locator}

/-- The same place in a pass over the changed report, with the protocols of a chain. -/
def change (cx : Context) (u : CellChange) (chain : ProtocolChain σ) : Context :=
  { cx with
    report := cx.report.change u
    sources := chain.size
    knows := chain.knows
    current := cx.current.map (Resolved.change u) }

theorem currentLabel_change : (cx.change u chain).currentLabel = cx.currentLabel := by
  simp [currentLabel, change, Function.comp_def]

theorem resolve_change (hwf : cx.report.WellFormed) :
    (cx.change u chain).resolve locator = (cx.resolve locator).map (Resolved.change u) := by
  have current : (cx.change u chain).current.map (·.address) = cx.current.map (·.address) := by
    simp [change, Function.comp_def, Resolved.change]
  rw [resolve, current]
  exact ReportIndex.resolve_change hwf

end Context

theorem Plain.own_change {base cx : Context} (hcx : base.Within cx) (u : CellChange)
    (target : Resolved) (phase : Phase) :
    (cx.change u chain).own (target.change u) phase = (base.own target phase).change u chain := by
  rw [hcx]
  rfl

namespace Correspondence

/-- What references lead to is read in related ways in two contexts, in the phases in which the
references may be used. -/
def ReadsChanged (R : Correspondence (Except Interrupt) (Except Interrupt))
    (access access' : Access (Except Interrupt)) (cx cx' : Context) (target target' : Resolved) :
    Phase → Prop
  | .execution =>
    (∀ kind, R.Rel (readValue access cx kind target) (readValue access' cx' kind target')) ∧
      R.Rel (findValue access cx target) (findValue access' cx' target')
  | .validation => cx.phase ≠ .execution →
    R.Rel (readValidity access cx target) (readValidity access' cx' target')
  | .availability => cx.phase ≠ .execution →
    R.Rel (readAvailability access cx target) (readAvailability access' cx' target')

variable {R : Correspondence (Except Interrupt) (Except Interrupt)}
  {access access' : Access (Except Interrupt)} {cx : Context} (hadmits : ∀ e, R.Admits e)
  (hwf : cx.report.WellFormed)
include hadmits hwf

/-- What is done with the cells that a locator means is related when it is so for each cell. -/
theorem bind_resolve_change {locator : Locator} {f g : Resolved → Except Interrupt α}
    (h : ∀ target, cx.resolve locator = .ok target → R.Rel (f target) (g (target.change u))) :
    R.Rel (liftM (cx.resolve locator) >>= f)
      (liftM ((cx.change u chain).resolve locator) >>= g) := by
  rw [Context.resolve_change hwf]
  cases hresolve : cx.resolve locator with
  | error e => exact R.fail (hadmits e)
  | ok target => exact h target hresolve

/-- A rule is related to itself in a changed report when its operands are related, and so is what
its reference leads to. -/
theorem rule_change {op : Operation} (hoperands : ∀ x ∈ op.operands,
      R.Rel (access.evaluate cx x) (access'.evaluate (cx.change u chain) x))
    (hreads : ∀ ref ∈ op.reference?, ∀ target, cx.resolve ref.locator = .ok target →
      R.ReadsChanged access access' cx (cx.change u chain) target (target.change u) ref.phase) :
    R.Rel (BuiltinRule.ofTag op.tag access cx op)
      (BuiltinRule.ofTag op.tag access' (cx.change u chain) op) := by
  cases op with
  | cellValue locator kind =>
    have read : R.Rel (ReportCalc.cellValue access cx locator kind)
        (ReportCalc.cellValue access' (cx.change u chain) locator kind) := by
      rw [cellValue_eq, cellValue_eq]
      exact bind_resolve_change hadmits hwf fun target htarget =>
        (hreads ⟨locator, .execution⟩ rfl target htarget).1 kind
    exact read
  | hasValue locator =>
    have find : R.Rel (ReportCalc.hasValue access cx locator)
        (ReportCalc.hasValue access' (cx.change u chain) locator) := by
      rw [hasValue_eq, hasValue_eq]
      exact bind_resolve_change hadmits hwf fun target htarget =>
        (hreads ⟨locator, .execution⟩ rfl target htarget).2
    exact R.bind find fun b => R.pure _
  | validity locator =>
    refine R.lift (fun e _ => hadmits e) fun _ hallowed => R.bind ?_ fun v => R.pure _
    rw [validityOf_eq, validityOf_eq]
    refine bind_resolve_change hadmits hwf fun target htarget => ?_
    refine hreads ⟨locator, .validation⟩ rfl target htarget fun h => ?_
    simp [h] at hallowed
  | availability locator =>
    refine R.lift (fun e _ => hadmits e) fun _ hallowed => R.bind ?_ fun v => R.pure _
    rw [availabilityOf_eq, availabilityOf_eq]
    refine bind_resolve_change hadmits hwf fun target htarget => ?_
    refine hreads ⟨locator, .availability⟩ rfl target htarget fun h => ?_
    simp [h] at hallowed
  | _ =>
    exact ofOperands (fun e _ => hadmits e) rfl Context.currentLabel_change.symm hoperands

end Correspondence

end ReportCalc
