import ReportCalc.Proofs.Operation.Typing
import ReportCalc.Proofs.Report.References

/-!
# Typing of reports

A report is well-typed (`Report.WellTyped`) when no cell depends on itself, every input holds a
value of its kind, and what the phases evaluate for its cells is well-typed. As typing asks for the
kinds of inputs and not for their values, it stays when inputs change (`Report.WellTyped.update`).
-/

namespace ReportCalc

variable {u : InputUpdate} {r : Report}

/-- The value of the input is one of its kind, if there is one. -/
def InputCell.Conforms (c : InputCell) : Prop := c.check c.value = .ok ()

theorem InputCell.Conforms.admits {c : InputCell} (h : c.Conforms) {v : Value}
    (hv : c.value = some v) : c.kind.admits v = true := by
  rw [Conforms, hv, check] at h
  split at h
  · assumption
  · cases h

/-- A report without reference cycles, in which all inputs hold values of their kinds, as setting
them makes sure (`InputCell.check`), and all operations and chains are well-typed where they
stand. -/
structure Report.WellTyped (r : Report) : Prop where
  acyclic : r.Acyclic
  inputs : ∀ a c, r.cellAt? a = some (.input c) → c.Conforms
  operations : ∀ a cell phase op, r.cellAt? a = some cell → cell.root? phase = some op →
    op.WellTyped ((ReportIndex.build r).resolve r · (some a))

/-! ## Changing inputs -/

theorem Cell.provides_update {kind : Kind} {a : CellAddress} {cell : Cell}
    (h : cell.Provides kind) : (cell.update u a).Provides kind := by
  cases cell with
  | input c =>
    rw [update_input, Provides, u.kind_apply]
    exact h
  | slotted c => cases h
  | _ => exact h

namespace Operation

variable {resolve resolve' : Locator → Except EvaluationError Resolved} {op : Operation}

/-- Of the cells that an operation reads only the kinds matter. -/
theorem Typed.congr (h : op.Typed resolve)
    (hresolve : ∀ locator target', resolve' locator = .ok target' →
      ∃ target, resolve locator = .ok target ∧
        ∀ kind, target.cell.Provides kind → target'.cell.Provides kind) :
    op.Typed resolve' := by
  cases op with
  | cellValue locator kind =>
    intro target' htarget'
    obtain ⟨target, htarget, hprovides⟩ := hresolve locator target' htarget'
    exact hprovides kind (h target htarget)
  | _ => exact h

theorem WellTyped.congr (h : op.WellTyped resolve)
    (hresolve : ∀ locator target', resolve' locator = .ok target' →
      ∃ target, resolve locator = .ok target ∧
        ∀ kind, target.cell.Provides kind → target'.cell.Provides kind) :
    op.WellTyped resolve' := fun x hx => ⟨(h x hx).1, (h x hx).2.congr hresolve⟩

end Operation

namespace InputCell.Conforms

variable {c : InputCell}

/-- An input that is cleared has no value, and so none of another kind. -/
theorem clearing (h : c.Conforms) (time : DateTime) (cleared : List CellAddress)
    (a : CellAddress) : ((InputUpdate.clearing time cleared).apply a c).Conforms := by
  by_cases ha : a ∈ cleared
  · rw [InputUpdate.clearing_of_mem ha]
    rfl
  · rwa [InputUpdate.clearing_of_not_mem ha]

/-- Setting an input checks the value. -/
theorem setting (h : c.Conforms) (time : DateTime) {a b : CellAddress} {value : Option Value}
    (hcheck : a = b → c.check value = .ok ()) :
    ((InputUpdate.setting time b value).apply a c).Conforms := by
  by_cases ha : a = b
  · simpa [InputUpdate.setting, ha, Conforms, check] using hcheck ha
  · simpa [InputUpdate.setting, ha] using h

end InputCell.Conforms

namespace Report

/-- All inputs of the report hold values of their kinds, if they hold any. -/
def InputsConform (r : Report) : Prop :=
  ∀ a c, r.cellAt? a = some (.input c) → c.Conforms

theorem InputsConform.update (hwf : r.WellFormed)
    (hu : ∀ a c, r.cellAt? a = some (.input c) → (u.apply a c).Conforms) :
    (r.update u).InputsConform := by
  intro a c hc
  obtain ⟨d, hd, rfl⟩ := exists_input_of_update hwf hc
  exact hu a d hd

/-- Changing inputs to values of their kinds keeps a report well-typed. -/
theorem WellTyped.update (h : r.WellTyped) (hwf : r.WellFormed)
    (hu : ∀ a c, r.cellAt? a = some (.input c) → (u.apply a c).Conforms) :
    (r.update u).WellTyped where
  acyclic := h.acyclic.update hwf
  inputs := InputsConform.update hwf hu
  operations a cell phase op hcell hop := by
    rw [cellAt?_update hwf] at hcell
    obtain ⟨cell, hfound, rfl⟩ := Option.map_eq_some_iff.1 hcell
    rw [Cell.root?_update] at hop
    refine (h.operations a cell phase op hfound hop).congr fun locator target' htarget' => ?_
    obtain ⟨target, htarget, rfl⟩ := ReportIndex.exists_resolve_of_update hwf htarget'
    exact ⟨target, htarget, fun kind => Cell.provides_update⟩

/-- Clearing inputs keeps a report well-typed. -/
theorem WellTyped.clearing (h : r.WellTyped) (hwf : r.WellFormed) (time : DateTime)
    (cleared : List CellAddress) : (r.update (.clearing time cleared)).WellTyped :=
  h.update hwf fun a c hc => (h.inputs a c hc).clearing time cleared a

end Report

end ReportCalc
