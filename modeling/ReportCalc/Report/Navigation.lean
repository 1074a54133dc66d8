import ReportCalc.Report.Basic

/-!
# Navigation

`Report.cellAt?` walks to the cell at an address. `Report.focus?` does the same for writing: it
finds the cell together with the way to put another one in its place, and `Report.writeCell?` puts
it there.
-/

namespace ReportCalc

/-! ## Reading -/

def Row.step? (row : Row) : RowStep → Option Row
  | .child index => row.children[index]?
  | .expandedSummary => row.expanded
  | .collapsedSummary => row.collapsed

/-- The row at the end of a path from a row. -/
def Row.descend? : Row → List RowStep → Option Row
  | row, [] => some row
  | row, step :: rest => (row.step? step).bind (·.descend? rest)

/-- The row at a path from a band, which begins with the index of a row. -/
def Table.row? (t : Table) (band : Band) : List RowStep → Option Row
  | .child index :: rest => (t.band band)[index]?.bind (·.descend? rest)
  | _ => none

/-- The cell itself, or the cell of one of its slots. -/
def Cell.slotCell? (cell : Cell) : Option String → Option Cell
  | none => some cell
  | some slot => cell.slotted?.bind (·.slot? slot)

def Report.cellAt? (r : Report) (a : CellAddress) : Option Cell := do
  let s ← r.sections[a.row.sectionIndex]?
  let row ← s.table.row? a.row.band a.row.path
  let cell ← row.cells[a.cellIndex]?
  cell.slotCell? a.slot

/-! ## Writing -/

/-- A part of a whole, and the whole with another part in its place. -/
structure Focus (ω α : Type) where
  part : α
  replace : α → ω

namespace Focus

variable {ω α β : Type}

def compose (outer : Focus ω α) (inner : Focus α β) : Focus ω β :=
  ⟨inner.part, fun b => outer.replace (inner.replace b)⟩

/-- The whole as a part of something that is made from it. -/
def map (f : ω → α) (focus : Focus ω β) : Focus α β := ⟨focus.part, fun b => f (focus.replace b)⟩

def whole (a : α) : Focus α α := ⟨a, fun b => b⟩

def item? (items : List α) (index : Nat) : Option (Focus (List α) α) :=
  items[index]?.map fun a => ⟨a, fun b => items.set index b⟩

def content? (o : Option α) : Option (Focus (Option α) α) := o.map fun a => ⟨a, some⟩

end Focus

/-- The row that a step leads to, for writing. -/
def Row.focusStep? (row : Row) : RowStep → Option (Focus Row Row)
  | .child index =>
    (Focus.item? row.children index).map (·.map fun children => { row with children })
  | .expandedSummary =>
    (Focus.content? row.expanded).map (·.map fun expanded => { row with expanded })
  | .collapsedSummary =>
    (Focus.content? row.collapsed).map (·.map fun collapsed => { row with collapsed })

/-- The row at the end of a path from a row, for writing. -/
def Row.focus? : Row → List RowStep → Option (Focus Row Row)
  | row, [] => some (.whole row)
  | row, step :: rest =>
    (row.focusStep? step).bind fun below => (Row.focus? below.part rest).map below.compose

def Table.withBand (t : Table) (band : Band) (rows : List Row) : Table :=
  match band with
  | .header => { t with header := rows }
  | .body => { t with body := rows }
  | .footer => { t with footer := rows }

/-- The row at a path from a band, for writing. -/
def Table.focus? (t : Table) (band : Band) : List RowStep → Option (Focus Table Row)
  | .child index :: rest =>
    (Focus.item? (t.band band) index).bind fun top =>
      (top.part.focus? rest).map fun below => (top.compose below).map (t.withBand band)
  | _ => none

/-- The cell itself, or the cell of one of its slots, for writing. -/
def Cell.focusSlot? (cell : Cell) : Option String → Option (Focus Cell Cell)
  | none => some (.whole cell)
  | some slot =>
    match cell with
    | .slotted c => (c.slot? slot).map fun inner =>
      ⟨inner, fun b => .slotted { c with slots := Keyed.replace slot b c.slots }⟩
    | _ => none

namespace Report

/-- The cell at an address, for writing. -/
def focus? (r : Report) (a : CellAddress) : Option (Focus Report Cell) := do
  let inReport ← Focus.item? r.sections a.row.sectionIndex
  let inSection ← inReport.part.table.focus? a.row.band a.row.path
  let inRow ← Focus.item? inSection.part.cells a.cellIndex
  let inCell ← inRow.part.focusSlot? a.slot
  let ofRow := (inRow.compose inCell).map fun cells => { inSection.part with cells }
  let ofSection := (inSection.compose ofRow).map fun table => { inReport.part with table }
  return (inReport.compose ofSection).map fun sections => { r with sections }

/-- The report with another cell at an address that has one. -/
def writeCell? (r : Report) (a : CellAddress) (cell : Cell) : Option Report :=
  (r.focus? a).map (·.replace cell)

end Report

end ReportCalc
