import ReportCalc.Evaluation.Reading
import ReportCalc.Proofs.Report.References

/-!
# Another operation in one cell

Two reports that differ in the operation of one cell are one report and a change of it
(`CellChange.operation`). All cells keep their sorts, their chains and what they store, and every
node but the execution of that cell is evaluated by the same rule (`Cell.rule?_operation`).
-/

namespace ReportCalc

/-- Putting another operation into the operation cell at an address. -/
def CellChange.operation (a : CellAddress) (op : Operation) : CellChange where
  apply
    | b, .operation c => .operation (if b = a then c.withOperation op else c)
    | _, c => c
  id_apply b c := by
    cases c with
    | operation c =>
      change (if b = a then c.withOperation op else c).id = c.id
      split <;> rfl
    | _ => rfl
  slotted?_apply b c := by cases c <;> rfl

variable {a b : CellAddress} {op : Operation}

/-! ## Cells -/

namespace Cell

variable {c : Cell}

theorem change_operation (c : OperationCell) :
    (operation c).change (.operation a op) b =
      .operation (if b = a then c.withOperation op else c) := rfl

/-- The cell is changed to one of the same sort. -/
theorem sortName_operation : (c.change (.operation a op) b).sortName = c.sortName := by
  cases c with
  | slotted c => cases h : b.slot <;> simp [change, h, sortName]
  | _ => rfl

theorem rules?_operation : (c.change (.operation a op) b).rules? = c.rules? := by
  cases c with
  | operation c =>
    rw [change_operation]
    split <;> rfl
  | slotted c => cases h : b.slot <;> simp [change, h, rules?]
  | _ => rfl

theorem input?_operation : (c.change (.operation a op) b).input? = c.input? := by
  cases c with
  | slotted c => cases h : b.slot <;> simp [change, h, input?]
  | _ => rfl

theorem operation?_operation : (c.change (.operation a op) b).operation? =
    c.operation?.map fun d => if b = a then d.withOperation op else d := by
  cases c with
  | slotted c => cases h : b.slot <;> simp [change, h, operation?]
  | _ => rfl

theorem storedHasValue_operation :
    storedHasValue (c.change (.operation a op) b) = storedHasValue c := by
  cases c with
  | slotted c => cases h : b.slot <;> simp [change, h, storedHasValue]
  | _ => rfl

/-- The change concerns one node only. -/
theorem rule?_operation {phase : Phase} (h : (⟨b, phase⟩ : Node) ≠ ⟨a, .execution⟩) :
    (c.change (.operation a op) b).rule? phase = c.rule? phase := by
  cases phase with
  | execution =>
    have hb : b ≠ a := fun hb => h (by rw [hb])
    simp only [rule?, operation?_operation, if_neg hb, Option.map_map]
    rfl
  | validation => simp only [rule?, validation?, rules?_operation]
  | availability => simp only [rule?, availability?, rules?_operation]

end Cell

namespace Resolved

variable {target : Resolved}

theorem mismatch_operation (expected : String) :
    (target.change (.operation a op)).mismatch expected = target.mismatch expected := by
  rw [mismatch, mismatch, label_change, change, Cell.sortName_operation]

/-- An operation cell stays one. -/
theorem operationCell_operation : (target.change (.operation a op)).operationCell =
    target.operationCell.map fun c =>
      if target.address = a then c.withOperation op else c := by
  have hmismatch : (target.change (.operation a op)).mismatch "operation" = _ :=
    target.mismatch_operation "operation"
  obtain ⟨b, cell⟩ := target
  cases cell with
  | operation c => rfl
  | slotted c => cases h : b.slot <;> simp_all [change, Cell.change, operationCell, Except.map]
  | _ => exact congrArg Except.error hmismatch

theorem rules_operation : (target.change (.operation a op)).rules = target.rules := by
  have hrules : (target.change (.operation a op)).cell.rules? = target.cell.rules? :=
    Cell.rules?_operation
  rw [rules, rules, hrules, mismatch_operation]

theorem storedValue_operation (kind : Kind) :
    storedValue (target.change (.operation a op)) kind = storedValue target kind := by
  have hmismatch : (target.change (.operation a op)).mismatch "value" = _ :=
    target.mismatch_operation "value"
  obtain ⟨b, cell⟩ := target
  cases cell with
  | slotted c => cases h : b.slot <;> simp_all [change, Cell.change, storedValue]
  | const c | input c => rfl
  | _ => exact congrArg Except.error hmismatch

end Resolved

/-! ## Reports -/

namespace Report

variable {r r' : Report} {c : OperationCell}

/-- Writing an operation cell back with another operation is that change. -/
theorem writeCell?_eq_change (h : r.WellFormed) (hc : r.cellAt? a = some (.operation c))
    (hwrite : r.writeCell? a (.operation (c.withOperation op)) = some r') :
    r' = r.change (.operation a op) := by
  have outside (b : CellAddress) (d : Cell) (hb : b ≠ a) :
      (CellChange.operation a op).apply b d = d := by
    cases d with
    | operation d => exact congrArg Cell.operation (if_neg hb)
    | _ => rfl
  have written : (CellChange.operation a op).apply a (.operation c) =
      .operation (c.withOperation op) := congrArg Cell.operation (if_pos rfl)
  exact eq_change_of_writeCell? h hc rfl outside (written.symm ▸ hwrite)

end Report

end ReportCalc
