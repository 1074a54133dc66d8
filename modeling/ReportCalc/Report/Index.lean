import ReportCalc.Evaluation.Error
import ReportCalc.Report.Navigation

/-!
# Locating cells

The index of a report holds the place of every section and cell by id. `ReportIndex.locate` resolves
a locator to an address, and `ReportIndex.resolve` goes on to the cell there. The cells in slots are
in the index too, so a slot's own cell can be named directly.
-/

namespace ReportCalc

/-- Sections and cells by id; of several entries with one id the first counts. -/
structure ReportIndex where
  sections : List (String × Nat)
  cells : List (String × CellAddress)
  deriving DecidableEq

/-- A cell together with its address. -/
structure Resolved where
  address : CellAddress
  cell : Cell

def Resolved.label (r : Resolved) : String := r.cell.label

namespace ReportIndex

/-- The index of a report. The entries are in reverse order, so that of several cells with one id
the last one is found. -/
def build (r : Report) : ReportIndex where
  sections := (r.sections.zipIdx.map fun (s, index) => (s.id, index)).reverse
  cells := (r.cells.filterMap fun (a, cell) => cell.id.map (·, a)).reverse

def sectionIndex (index : ReportIndex) (id : String) : Except EvaluationError Nat :=
  match index.sections.lookup id with
  | some n => .ok n
  | none => .error (.sectionNotFound id)

/-- The address of the cell that is current, which a relative locator needs. -/
def currentOf (locator : Locator) (current : Option CellAddress) :
    Except EvaluationError CellAddress :=
  match current with
  | some a => .ok a
  | none => .error (.noCurrentCell locator.display)

/-- Narrows the cell with this id to the slot that a locator asks for. -/
def narrow (cellId : String) (a : CellAddress) (cell : Cell) (choice : SlotChoice) :
    Except EvaluationError CellAddress :=
  match cell, choice.slot with
  | .slotted c, some slot =>
    if (c.slot? slot).isSome then .ok (a.withSlot slot) else .error (.slotNotFound cellId slot)
  | .slotted c, none =>
    match choice.selection with
    | .defaultSlot => .ok (a.withSlot c.defaultSlot)
    | .required => .error (.slotIdRequired cellId)
  | _, some slot => .error (.notSlotted cellId slot)
  | _, none => .ok a

/-- The address of the cell with this id in a section, narrowed to a slot. -/
def locateIn (index : ReportIndex) (r : Report) (sectionIndex : Nat) (cellId : String)
    (choice : SlotChoice) : Except EvaluationError CellAddress := do
  let notFound := EvaluationError.cellNotFound (r.sectionId sectionIndex) cellId
  let some a := (index.cells.lookup cellId).filter (·.row.sectionIndex == sectionIndex)
    | throw notFound
  let some cell := r.cellAt? a | throw notFound
  narrow cellId a cell choice

/-- The address that a locator means, seen from the cell that is being evaluated. -/
def locate (index : ReportIndex) (r : Report) (locator : Locator) (current : Option CellAddress) :
    Except EvaluationError CellAddress :=
  match locator with
  | .inReport s cellId choice | .standard s cellId choice => do
    locateIn index r (← index.sectionIndex s) cellId choice
  | .inSection cellId choice => do
    locateIn index r (← currentOf locator current).row.sectionIndex cellId choice
  | .self => currentOf locator current

/-- The cell that a locator means, with its address. -/
def resolve (index : ReportIndex) (r : Report) (locator : Locator)
    (current : Option CellAddress) : Except EvaluationError Resolved := do
  let a ← index.locate r locator current
  match r.cellAt? a with
  | some cell => .ok ⟨a, cell⟩
  | none => .error (.cellNotFound (r.sectionId a.row.sectionIndex) locator.display)

end ReportIndex

end ReportCalc
