import ReportCalc.Proofs.Evaluation.Nodes
import ReportCalc.Proofs.Report.History

/-!
# Evaluations at another time

An operation can be evaluated in the same place of a report after an update that goes unnoticed,
and as of another time (`Context.shift`). To the rules of operations this is nothing but another
access to other cells (`BuiltinRule.ofTag_shift`): they read neither histories nor times.
-/

namespace ReportCalc

variable {σ : Type} {u : InputUpdate} {time : DateTime} {cx : Context} {locator : Locator}

namespace Context

/-- The same place in the updated report, as of another time. -/
def shift (cx : Context) (u : InputUpdate) (time : DateTime) : Context :=
  { cx with report := cx.report.update u, time, current := cx.current.map (Resolved.update u) }

theorem currentLabel_shift : (cx.shift u time).currentLabel = cx.currentLabel := by
  simp [currentLabel, shift, Function.comp_def]

/-- A locator means the same cell. -/
theorem resolve_shift (hwf : cx.report.WellFormed) :
    (cx.shift u time).resolve locator = (cx.resolve locator).map (Resolved.update u) := by
  have current : (cx.shift u time).current.map (·.address) = cx.current.map (·.address) := by
    simp [shift, Function.comp_def, Resolved.update]
  rw [resolve, current]
  exact ReportIndex.resolve_update hwf

end Context

/-- Access from a place by way of the same place in the updated report, as of another time. -/
def Access.shift (access : Access (Task σ)) (u : InputUpdate) (time : DateTime) :
    Access (Task σ) where
  evaluate cx op := access.evaluate (cx.shift u time) op
  execute cx target := access.execute (cx.shift u time) (target.update u)
  validate cx target := do
    return ⟨cx.time, (← access.validate (cx.shift u time) (target.update u)).content⟩
  check cx target := do
    return ⟨cx.time, (← access.check (cx.shift u time) (target.update u)).content⟩

/-! ## Reading -/

section Reading
variable {access : Access (Task σ)} (hwf : cx.report.WellFormed)
include hwf

/-- What is done with the cell that a locator means is done with the cell in the shifted place. -/
theorem Context.bind_resolve_shift {α : Type} {f g : Resolved → Task σ α}
    (h : ∀ target, cx.resolve locator = .ok target → f target = g (target.update u)) :
    (liftM (cx.resolve locator) >>= f) = liftM ((cx.shift u time).resolve locator) >>= g := by
  rw [resolve_shift hwf]
  cases hresolve : cx.resolve locator with
  | error e => rfl
  | ok target => exact h target hresolve

theorem cellValue_shift {kind : Kind} (hu : ∀ target, cx.resolve locator = .ok target →
      ∀ c, (u.apply target.address c).read kind = c.read kind) :
    cellValue (access.shift u time) cx locator kind =
      cellValue access (cx.shift u time) locator kind := by
  rw [cellValue_eq, cellValue_eq]
  refine Context.bind_resolve_shift hwf fun target htarget => ?_
  have succeeded : succeededValue (target.update u) = succeededValue target := by
    funext outcome
    cases outcome <;> simp [succeededValue]
  rw [readValue, readValue, target.operationCell_update,
    target.storedValue_update (hu target htarget), target.label_update, succeeded]
  rfl

theorem hasValue_shift (hu : ∀ a c, (u.apply a c).held = c.held) :
    hasValue (access.shift u time) cx locator = hasValue access (cx.shift u time) locator := by
  rw [hasValue_eq, hasValue_eq]
  refine Context.bind_resolve_shift hwf fun target _ => ?_
  have stored : storedHasValue (target.update u).cell = storedHasValue target.cell :=
    Cell.storedHasValue_update (hu _)
  rw [findValue, findValue, target.operationCell_update, stored]
  rfl

theorem validityOf_shift :
    validityOf (access.shift u time) cx locator = validityOf access (cx.shift u time) locator := by
  refine Context.bind_resolve_shift hwf fun target _ => ?_
  rw [target.label_update]
  exact bind_assoc (m := Task σ) ..

theorem availabilityOf_shift :
    availabilityOf (access.shift u time) cx locator =
      availabilityOf access (cx.shift u time) locator := by
  refine Context.bind_resolve_shift hwf fun target _ => ?_
  rw [target.label_update]
  exact bind_assoc (m := Task σ) ..

end Reading

/-- The rule of an operation does the same with the access to the shifted place. -/
theorem BuiltinRule.ofTag_shift {op : Operation} (hu : u.Unnoticed cx.report)
    {access : Access (Task σ)} (hwf : cx.report.WellFormed) (hindex : cx.index = .build cx.report)
    (hop : cx.Owns op) :
    BuiltinRule.ofTag op.tag (access.shift u time) cx op =
      BuiltinRule.ofTag op.tag access (cx.shift u time) op := by
  cases op with
  | cellValue locator kind =>
    exact cellValue_shift hwf fun target htarget => hu.read _ kind (hop.asksFor hindex htarget)
  | hasValue locator => exact congrArg (· >>= _) (hasValue_shift hwf hu.held)
  | validity locator =>
    simp only [ofTag, Operation.tag, BuiltinRule.validity, validityOf_shift hwf]
    rfl
  | availability locator =>
    simp only [ofTag, Operation.tag, BuiltinRule.availability, availabilityOf_shift hwf]
    rfl
  | subtract a b kind | divide a b kind =>
    exact congrArg (fun label => BuiltinRule.combineOperands _ label _ a b kind)
      Context.currentLabel_shift.symm
  | _ => rfl

end ReportCalc
