import ReportCalc.Proofs.Report.Declaration
import ReportCalc.Proofs.Text.Bytes

/-!
# Rows and their cells

There are two traversals: `Report.cells` lists cells with their addresses, and `Table.allRows`
lists rows. They go over the same rows in the same order, so the cells of a report are those of all
rows of its sections, a slotted cell followed by what its slots hold (`Report.map_cells`). To see
which rows the listing of cells meets, it is taken as a walk that adds to what it has met and listed
so far (`Row.walk`): what it lists is `Row.entries`, and what it meets is `Row.descendants`
(`Row.walk_eq`).
-/

namespace ReportCalc

namespace Cell

variable {cell : Cell}

/-- The cell, followed by what its slots hold, in the order of the bytes of their ids. -/
def withContents : Cell → List Cell
  | .slotted c =>
    .slotted c :: (c.slots.mergeSort fun s t => Text.bytes s.1 ≤ Text.bytes t.1).map Prod.snd
  | cell => [cell]

theorem map_entries (h : cell.WellFormed) (a : CellAddress) :
    (cell.entries a).map Prod.snd = cell.withContents := by
  cases cell with
  | slotted c =>
    have sorted : c.slots.Pairwise fun s t => decide (Text.bytes s.1 ≤ Text.bytes t.1) = true :=
      (List.pairwise_map.1 h).imp fun hlt =>
        decide_eq_true (List.le_of_lt (Text.bytes_lt_iff.2 hlt))
    rw [entries, withContents, List.mergeSort_of_pairwise sorted, List.map_cons, List.map_map]
    rfl
  | _ => rfl

end Cell

theorem Row.map_cellEntries {cells : List Cell} (h : ∀ cell ∈ cells, cell.WellFormed)
    (p : RowPosition) (start : Nat) :
    (cellEntries p start cells).map Prod.snd = cells.flatMap Cell.withContents := by
  induction cells generalizing start with
  | nil => rfl
  | cons cell rest ih =>
    obtain ⟨hcell, hrest⟩ := List.forall_mem_cons.1 h
    rw [cellEntries, List.map_append, Cell.map_entries hcell, ih hrest, List.flatMap_cons]

/-! ## The rows that are met -/

/-- How far a walk over rows has come: the rows that it has met and the cells that it has listed. -/
structure Walk where
  met : List Row
  listed : List (CellAddress × Cell)

namespace Row

mutual

/-- Goes on with a walk over a row, which lists the cells of the row, and over the rows nested in
it: the children, then the summary for the expanded and the one for the collapsed state. -/
def walk (p : RowPosition) : Row → Walk → Walk
  | ⟨id, cells, children, expanded, collapsed⟩, w =>
    walkOption (p.step .collapsedSummary) collapsed
      (walkOption (p.step .expandedSummary) expanded
        (walkList p 0 children
          ⟨w.met ++ [⟨id, cells, children, expanded, collapsed⟩],
            w.listed ++ cellEntries p 0 cells⟩))

/-- Goes on with a walk over rows below a place, which are numbered from an index on. -/
def walkList (p : RowPosition) : Nat → List Row → Walk → Walk
  | _, [], w => w
  | i, row :: rest, w => walkList p (i + 1) rest (walk (p.step (.child i)) row w)

def walkOption (p : RowPosition) : Option Row → Walk → Walk
  | none, w => w
  | some row, w => walk p row w

end

mutual

/-- A walk over a row meets its descendants and lists its entries, each in order and once. -/
theorem walk_eq (p : RowPosition) : ∀ (row : Row) (w : Walk),
    row.walk p w = ⟨w.met ++ row.descendants, w.listed ++ row.entries p⟩
  | ⟨id, cells, children, expanded, collapsed⟩, w => by
    rw [walk, walkList_eq, walkOption_eq, walkOption_eq]
    simp only [descendants, entries, List.append_assoc, List.cons_append, List.nil_append]

theorem walkList_eq (p : RowPosition) : ∀ (start : Nat) (rows : List Row) (w : Walk),
    walkList p start rows w =
      ⟨w.met ++ descendantsOfList rows, w.listed ++ entriesOfList p start rows⟩
  | _, [], w => by simp only [walkList, descendantsOfList, entriesOfList, List.append_nil]
  | start, row :: rest, w => by
    rw [walkList, walk_eq, walkList_eq]
    simp only [descendantsOfList, entriesOfList, List.append_assoc]

theorem walkOption_eq (p : RowPosition) : ∀ (o : Option Row) (w : Walk),
    walkOption p o w = ⟨w.met ++ descendantsOfOption o, w.listed ++ entriesOfOption p o⟩
  | none, w => by simp only [walkOption, descendantsOfOption, entriesOfOption, List.append_nil]
  | some row, w => by rw [walkOption, walk_eq, descendantsOfOption, entriesOfOption]

end

end Row

namespace Report

variable {r : Report}

theorem map_cells (h : r.WellFormed) : r.cells.map Prod.snd =
    r.sections.flatMap fun s => s.table.allRows.flatMap fun row =>
      row.cells.flatMap Cell.withContents := by
  calc r.cells.map Prod.snd
    _ = r.rows.flatMap fun entry => (Row.cellEntries entry.1 0 entry.2.cells).map Prod.snd := by
      rw [← flatMap_rows, List.map_flatMap]
    _ = r.rows.flatMap fun entry => entry.2.cells.flatMap Cell.withContents :=
      List.flatMap_congr fun entry hentry => Row.map_cellEntries (h.of_mem_rows hentry) entry.1 0
    _ = (r.rows.map Prod.snd).flatMap fun row => row.cells.flatMap Cell.withContents := by
      rw [List.flatMap_map]
    _ = _ := by rw [map_rows, List.flatMap_assoc]

/-- Both traversals go over the same rows in the same order. The cells of a report are those of the
rows of its sections, in the order in which each table lists its rows, and each slotted cell is
followed by what its slots hold, in the order of the bytes of their ids. The rows that are met while
the cells of a row are listed, with those of all rows nested in it, are the descendants of the
row. -/
theorem traversals_agree (h : r.WellFormed) :
    (r.cells.map Prod.snd = r.sections.flatMap fun s => s.table.allRows.flatMap fun row =>
      row.cells.flatMap Cell.withContents) ∧
    ∀ (p : RowPosition) (row : Row) (w : Walk),
      row.walk p w = ⟨w.met ++ row.descendants, w.listed ++ row.entries p⟩ :=
  ⟨map_cells h, Row.walk_eq⟩

end Report

namespace Nested

/-- The slots follow their cell, and the summary of the child row is met before the one of the row
above it. -/
theorem traversals_agree_nested :
    report.WellFormed ∧
      (report.sections.flatMap fun s => s.table.allRows.flatMap fun row =>
        row.cells.flatMap Cell.withContents) =
          [.const title, .null ⟨none, 1⟩, .slotted rate, .input dayRate, .input nightRate,
            .operation total, .input remark] ∧
      (trip.walk ⟨0, .body, [.child 0]⟩ ⟨[], []⟩).met.map (·.id) =
        ["trip", "leg", "rates", "total"] := by
  obtain ⟨hcells, hwalk⟩ := Report.traversals_agree wellFormed
  refine ⟨wellFormed, hcells.symm.trans rfl, ?_⟩
  rw [hwalk]
  rfl

end Nested

end ReportCalc
