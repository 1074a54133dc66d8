import ReportCalc.Proofs.Report.References

/-!
# The history of inputs

Inputs log what was done to them, but only what they hold is ever read, and a reader of an optional
kind does not even tell an input without a value from one that holds the absent value
(`InputCell.read`). An update of which no reader takes notice (`InputUpdate.Unnoticed`) makes no
difference to readers of a cell. Erasing the logs of all inputs is such an update
(`Report.withoutHistory`). Reports that are the same after one resemble each other
(`Report.Resembles`), and still do when inputs are cleared (`Report.Resembles.clearing`).
-/

namespace ReportCalc

/-! ## Inputs -/

namespace InputCell

/-- What an input holds, which is the absent value if it has none. -/
def held (c : InputCell) : Value := c.value.getD .null

/-- What a reader of a kind finds in the input. -/
def read (c : InputCell) (kind : Kind) : Option Value :=
  if kind.isOptional then some c.held else c.value

variable {c d : InputCell}

theorem held_eq (h : c.value = d.value) : c.held = d.held := by rw [held, held, h]

theorem read_eq (h : c.value = d.value) (kind : Kind) : c.read kind = d.read kind := by
  rw [read, read, held_eq h, h]

theorem any_value_eq : c.value.any (!·.isNull) = !c.held.isNull := by
  unfold held
  cases c.value <;> rfl

end InputCell

namespace InputUpdate

/-- No evaluation over the report takes notice of the update: inputs hold what they held, and what
is asked for as a value of some kind is read as before. -/
structure Unnoticed (u : InputUpdate) (r : Report) : Prop where
  held : ∀ a c, (u.apply a c).held = c.held
  read : ∀ a kind, r.AsksFor a kind → ∀ c, (u.apply a c).read kind = c.read kind

/-- The update only takes away what tells inputs apart: it may be repeated, and clearing an input
before or after it makes no difference to its result. -/
structure Blurs (u : InputUpdate) : Prop where
  again : ∀ a c, u.apply a (u.apply a c) = u.apply a c
  clearValue : ∀ a c reason time,
    u.apply a ((u.apply a c).clearValue reason time) = u.apply a (c.clearValue reason time)

/-- Erasing the logs of all inputs. -/
def forgetting : InputUpdate where
  apply _ c := { c with inputs := .empty }
  id_apply _ _ := rfl
  span_apply _ _ := rfl
  kind_apply _ _ := rfl
  rules_apply _ _ := rfl

theorem unnoticed_forgetting (r : Report) : forgetting.Unnoticed r where
  held _ _ := rfl
  read _ _ _ _ := rfl

theorem blurs_forgetting : forgetting.Blurs := ⟨fun _ _ => rfl, fun _ _ _ _ => rfl⟩

/-- One update after another. -/
def followedBy (u v : InputUpdate) : InputUpdate where
  apply a c := v.apply a (u.apply a c)
  id_apply a c := (v.id_apply a _).trans (u.id_apply a c)
  span_apply a c := (v.span_apply a _).trans (u.span_apply a c)
  kind_apply a c := (v.kind_apply a _).trans (u.kind_apply a c)
  rules_apply a c := (v.rules_apply a _).trans (u.rules_apply a c)

end InputUpdate

/-- The report with the logs of its inputs erased. -/
def Report.withoutHistory (r : Report) : Report := r.update .forgetting

variable {u : InputUpdate}

/-! ## Cells -/

namespace Cell

variable {a : CellAddress} {cell : Cell}

@[simp] theorem sortName_update : (cell.update u a).sortName = cell.sortName := by
  cases cell with
  | slotted c => cases h : a.slot <;> simp [update, h, sortName]
  | _ => rfl

theorem storedHasValue_update (hu : ∀ c, (u.apply a c).held = c.held) :
    storedHasValue (cell.update u a) = storedHasValue cell := by
  cases cell with
  | input c => simp [storedHasValue, InputCell.any_value_eq, hu c]
  | slotted c => cases h : a.slot <;> simp [update, h, storedHasValue]
  | _ => rfl

end Cell

namespace Resolved

variable {target : Resolved}

theorem mismatch_update (expected : String) :
    (target.update u).mismatch expected = target.mismatch expected := by
  simp only [mismatch, label_update]
  rw [update, Cell.sortName_update]

theorem operationCell_update : (target.update u).operationCell = target.operationCell := by
  have hmismatch := target.mismatch_update (u := u) "operation"
  obtain ⟨a, cell⟩ := target
  cases cell with
  | slotted c =>
    cases h : a.slot <;> simp_all [update, Cell.update, operationCell]
  | operation c => rfl
  | _ => exact congrArg Except.error hmismatch

theorem rules_update : (target.update u).rules = target.rules := by
  have hrules : (target.update u).cell.rules? = target.cell.rules? := Cell.rules?_update
  rw [rules, rules, hrules, mismatch_update]

theorem storedValue_input (a : CellAddress) (c : InputCell) (kind : Kind) :
    storedValue ⟨a, .input c⟩ kind =
      (c.read kind).elim (.error (.valueMissing (Cell.input c).label "no input")) .ok := by
  cases hvalue : c.value <;> cases hkind : kind.isOptional <;>
    simp [storedValue, InputCell.read, InputCell.held, hvalue, hkind, Resolved.label]

theorem storedValue_update {kind : Kind}
    (hu : ∀ c, (u.apply target.address c).read kind = c.read kind) :
    storedValue (target.update u) kind = storedValue target kind := by
  have hmismatch := target.mismatch_update (u := u) "value"
  obtain ⟨a, cell⟩ := target
  cases cell with
  | input c =>
    have hlabel : (Cell.input (u.apply a c)).label = (Cell.input c).label :=
      Resolved.label_update (u := u) ⟨a, .input c⟩
    rw [update, Cell.update_input, storedValue_input, storedValue_input, hu c, hlabel]
  | slotted c =>
    cases h : a.slot <;> simp_all [update, Cell.update, storedValue]
  | const c => rfl
  | _ => exact congrArg Except.error hmismatch

end Resolved

/-! ## Reports -/

namespace InputUpdate.Unnoticed

variable {v : InputUpdate} {r : Report}

/-- What is asked for stays the same when inputs change. -/
theorem update (h : u.Unnoticed r) (hwf : r.WellFormed) : u.Unnoticed (r.update v) where
  held := h.held
  read a kind hasked := h.read a kind ((Report.asksFor_update hwf).1 hasked)

end InputUpdate.Unnoticed

/-- Reports that are the same after an update of which neither takes notice. -/
structure Report.Resembles (r : Report) (u : InputUpdate) (r' : Report) : Prop where
  wellFormed : r.WellFormed
  wellFormed' : r'.WellFormed
  update_eq : r.update u = r'.update u
  unnoticed : u.Unnoticed r

namespace Report.Resembles

variable {r r' : Report} (h : r.Resembles u r')
include h

/-- What is asked for in one is asked for in the other. -/
theorem unnoticed' : u.Unnoticed r' where
  held := h.unnoticed.held
  read a kind hasked := by
    have hupdated : (r.update u).AsksFor a kind := by
      rw [h.update_eq]
      exact (asksFor_update h.wellFormed').2 hasked
    exact h.unnoticed.read a kind ((asksFor_update h.wellFormed).1 hupdated)

theorem index_eq : ReportIndex.build r = .build r' := by
  rw [← ReportIndex.build_update (u := u), h.update_eq, ReportIndex.build_update]

theorem labelAt_eq : r.labelAt = r'.labelAt := by
  funext a
  rw [← labelAt_update h.wellFormed (u := u), h.update_eq, labelAt_update h.wellFormed']

/-- The inputs of one are those of the other, up to the update. -/
theorem exists_input {a : CellAddress} {c : InputCell} (hc : r.cellAt? a = some (.input c)) :
    ∃ d, r'.cellAt? a = some (.input d) ∧ u.apply a c = u.apply a d := by
  have hupdated : (r'.update u).cellAt? a = some (.input (u.apply a c)) := by
    rw [← h.update_eq, cellAt?_update_input h.wellFormed hc]
  exact exists_input_of_update h.wellFormed' hupdated

/-- Reports from which the same inputs are cleared still resemble each other. -/
theorem clearing (hu : u.Blurs) (time : DateTime) (cleared : List CellAddress) :
    (r.update (.clearing time cleared)).Resembles u (r'.update (.clearing time cleared)) where
  wellFormed := h.wellFormed.update
  wellFormed' := h.wellFormed'.update
  unnoticed := h.unnoticed.update h.wellFormed
  update_eq := by
    have blurred (r : Report) : (r.update (.clearing time cleared)).update u =
        ((r.update u).update (.clearing time cleared)).update u := by
      have after : (r.update (.clearing time cleared)).update u =
        r.update (.followedBy (.clearing time cleared) u) := update_update fun _ _ => rfl
      have before : (r.update u).update (.clearing time cleared) =
        r.update (.followedBy u (.clearing time cleared)) := update_update fun _ _ => rfl
      rw [after, before]
      refine (update_update fun a c => ?_).symm
      by_cases ha : a ∈ cleared
      · simp only [InputUpdate.followedBy, InputUpdate.clearing_of_mem ha, hu.clearValue]
      · simp only [InputUpdate.followedBy, InputUpdate.clearing_of_not_mem ha, hu.again]
    rw [blurred r, h.update_eq, ← blurred r']

end Report.Resembles

end ReportCalc
