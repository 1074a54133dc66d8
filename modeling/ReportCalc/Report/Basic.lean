import ReportCalc.Table

/-!
# Reports

A report is a list of sections with a table each. Cells are addressed by their place in the report
(`CellAddress`), and `Report.cells` lists every cell with its address in declaration order. The ids
of sections, columns, rows and cells are unique in the whole report.
-/

namespace ReportCalc

/-- A titled table. -/
structure Section where
  id : String
  title : String
  table : Table
  deriving BEq

/-- A step from a band or a row to a row below it. -/
inductive RowStep where
  | child (index : Nat)
  | expandedSummary
  | collapsedSummary
  deriving DecidableEq

/-- The place of a row: its section, its band, and the steps down from the band. -/
structure RowPosition where
  sectionIndex : Nat
  band : Band
  path : List RowStep
  deriving DecidableEq

/-- The place of the row below that a step leads to. -/
def RowPosition.step (p : RowPosition) (s : RowStep) : RowPosition :=
  { p with path := p.path ++ [s] }

/-- The place of a cell: its row, its index in the row, and its slot if it lies in one. -/
structure CellAddress where
  row : RowPosition
  cellIndex : Nat
  slot : Option String
  deriving DecidableEq

/-- The address of the cell that the slot belongs to. -/
def CellAddress.container (a : CellAddress) : CellAddress := { a with slot := none }

/-- The address of a slot of the cell. -/
def CellAddress.withSlot (a : CellAddress) (slot : String) : CellAddress :=
  { a with slot := some slot }

/-- The cell with its address, and for a slotted cell the cells of its slots after it. -/
def Cell.entries (a : CellAddress) (cell : Cell) : List (CellAddress × Cell) :=
  match cell with
  | .slotted c => (a, cell) :: c.slots.map fun (slot, inner) => (a.withSlot slot, inner)
  | _ => [(a, cell)]

namespace Row

/-- The cells of a row, from an index on, with their addresses. -/
def cellEntries (position : RowPosition) : Nat → List Cell → List (CellAddress × Cell)
  | _, [] => []
  | index, cell :: rest =>
    cell.entries ⟨position, index, none⟩ ++ cellEntries position (index + 1) rest

mutual

/-- The cells of a row and of every row nested in it, with their addresses. -/
def entries (position : RowPosition) : Row → List (CellAddress × Cell)
  | ⟨_, cells, children, expanded, collapsed⟩ =>
    cellEntries position 0 cells ++ entriesOfList position 0 children ++
      entriesOfOption (position.step .expandedSummary) expanded ++
      entriesOfOption (position.step .collapsedSummary) collapsed

/-- The entries of rows below a place, which are numbered from an index on. -/
def entriesOfList (position : RowPosition) : Nat → List Row → List (CellAddress × Cell)
  | _, [] => []
  | index, row :: rest =>
    entries (position.step (.child index)) row ++ entriesOfList position (index + 1) rest

def entriesOfOption (position : RowPosition) : Option Row → List (CellAddress × Cell)
  | none => []
  | some row => entries position row

end

end Row

def Section.entries (sectionIndex : Nat) (s : Section) : List (CellAddress × Cell) :=
  Band.all.flatMap fun band => Row.entriesOfList ⟨sectionIndex, band, []⟩ 0 (s.table.band band)

/-- The entries of sections, which are numbered from an index on. -/
def Section.entriesOfList : Nat → List Section → List (CellAddress × Cell)
  | _, [] => []
  | index, s :: rest => s.entries index ++ entriesOfList (index + 1) rest

/-- A report. -/
structure Report where
  id : String
  sections : List Section
  deriving BEq

namespace Report

/-- Every cell with its address, in declaration order: header, body and footer of each section;
in a row its cells, a slotted cell followed by its slots, then the child rows, then the summary
rows. -/
def cells (r : Report) : List (CellAddress × Cell) := Section.entriesOfList 0 r.sections

def section? (r : Report) (id : String) : Option Section := r.sections.find? (·.id == id)

/-- The id of the section at an index, or nothing if there is none. -/
def sectionId (r : Report) (index : Nat) : String :=
  match r.sections[index]? with
  | some s => s.id
  | none => ""

/-! ## Construction -/

/-- The first id that occurs for the second time, given those seen before. -/
def repeatedAfter? (seen : List String) : List String → Option String
  | [] => none
  | id :: rest => if id ∈ seen then some id else repeatedAfter? (id :: seen) rest

/-- Refuses ids that repeat. -/
def checkUnique (category : IdCategory) (ids : List String) : Except ConstructionError Unit :=
  match repeatedAfter? [] ids with
  | some id => .error (.duplicateId category id)
  | none => .ok ()

def ids (r : Report) : IdCategory → List String
  | .section => r.sections.map (·.id)
  | .column => r.sections.flatMap fun s => s.table.columns.map (·.id)
  | .row => r.sections.flatMap fun s => s.table.allRows.map (·.id)
  | .cell => r.cells.filterMap fun (_, cell) => cell.id

def make (id : String) (sections : List Section) : Except ConstructionError Report := do
  let report : Report := ⟨id, sections⟩
  if sections.isEmpty then throw (.noSections id)
  [IdCategory.section, .column, .row, .cell].forM fun category =>
    checkUnique category (report.ids category)
  return report

end Report

end ReportCalc
