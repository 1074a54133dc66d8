import ReportCalc.Report.Navigation
import Mathlib.Data.List.Nodup

/-!
# Traversal and navigation

`Report.cells` lists the cells in declaration order, and `Report.cellAt?` walks to one of them. They
describe the same cells: an entry of the list is found at its address, every address with a cell is
listed (`Report.mem_cells_iff`), and none is listed twice (`Report.nodup_cells`). Both rest on the
slots of a cell having different ids, which their construction ensures (`Report.WellFormed`).
-/

namespace ReportCalc

/-! ## Well-formed reports -/

namespace Keyed

variable {α : Type} {entries : List (String × α)}

theorem Sorted.nodup (h : Sorted entries) : (entries.map Prod.fst).Nodup := by
  refine List.Pairwise.imp (fun {k _} hlt => ?_) h
  rintro rfl
  exact String.lt_irrefl k hlt

theorem lookup_eq_some_iff_mem (h : (entries.map Prod.fst).Nodup) {key : String} {value : α} :
    entries.lookup key = some value ↔ (key, value) ∈ entries := by
  induction entries with
  | nil => simp
  | cons entry rest ih =>
    obtain ⟨head, v⟩ := entry
    obtain ⟨hhead, hrest⟩ := List.nodup_cons.1 h
    by_cases eq : key = head
    · subst eq
      have absent : (key, value) ∉ rest := fun hmem => hhead (List.mem_map.2 ⟨_, hmem, rfl⟩)
      simp [absent, eq_comm]
    · simp [lookup_cons, eq, ih hrest]

end Keyed

/-- The slots of a cell are in order of their ids. -/
def Cell.WellFormed : Cell → Prop
  | .slotted c => Keyed.Sorted c.slots
  | _ => True

/-- All cells of the report are well-formed. -/
def Report.WellFormed (r : Report) : Prop := ∀ entry ∈ r.cells, entry.2.WellFormed

/-! ## Cells and their slots -/

theorem Cell.mem_entries_iff {cell c : Cell} (hcell : cell.WellFormed) {a b : CellAddress}
    (ha : a.slot = none) :
    (b, c) ∈ cell.entries a ↔ b.container = a ∧ cell.slotCell? b.slot = some c := by
  obtain ⟨row, index, slot⟩ := a
  obtain ⟨row', index', slot'⟩ := b
  cases ha
  cases slot' with
  | none => cases cell <;> simp [entries, CellAddress.container, CellAddress.withSlot, slotCell?,
      eq_comm]
  | some key =>
    cases cell with
    | slotted d =>
      have find : d.slots.lookup key = some c ↔ (key, c) ∈ d.slots :=
        Keyed.lookup_eq_some_iff_mem hcell.nodup
      simp [entries, CellAddress.container, CellAddress.withSlot, slotCell?, slotted?,
        SlottedCell.slot?, find, and_assoc, and_left_comm, eq_comm]
    | _ => simp [entries, slotCell?, slotted?]

/-! ## Rows and the rows below them -/

namespace Row

/-- Induction over a row with its nested rows, which are those that steps lead to. -/
theorem induction {motive : Row → Prop}
    (row : ∀ row, (∀ step below, row.step? step = some below → motive below) → motive row)
    (r : Row) : motive r := by
  refine row r fun step below h => ?_
  have smaller : sizeOf below < sizeOf r := by
    cases r with
    | mk id cells children expanded collapsed =>
      cases step with
      | child index =>
        have hmem : below ∈ children := List.mem_of_getElem? h
        have := List.sizeOf_lt_of_mem hmem
        simp only [mk.sizeOf_spec]
        omega
      | expandedSummary =>
        cases (h : expanded = some below)
        simp only [mk.sizeOf_spec, Option.some.sizeOf_spec]
        omega
      | collapsedSummary =>
        cases (h : collapsed = some below)
        simp only [mk.sizeOf_spec, Option.some.sizeOf_spec]
        omega
  exact Row.induction row below
termination_by sizeOf r

theorem cellEntries_eq {p : RowPosition} {cells : List Cell} {start : Nat} :
    cellEntries p start cells =
      (cells.zipIdx start).flatMap fun (cell, i) => cell.entries ⟨p, i, none⟩ := by
  induction cells generalizing start with
  | nil => rfl
  | cons cell rest ih => simp [cellEntries, ih]

theorem entriesOfList_eq {p : RowPosition} {rows : List Row} {start : Nat} :
    entriesOfList p start rows =
      (rows.zipIdx start).flatMap fun (row, i) => entries (p.step (.child i)) row := by
  induction rows generalizing start with
  | nil => rfl
  | cons row rest ih => simp [entriesOfList, ih]

theorem mem_cellEntries_iff {p : RowPosition} {cells : List Cell} {e : CellAddress × Cell} :
    e ∈ cellEntries p 0 cells ↔
      ∃ (i : Nat) (cell : Cell), cells[i]? = some cell ∧ e ∈ cell.entries ⟨p, i, none⟩ := by
  simp only [cellEntries_eq, List.mem_flatMap, Prod.exists, List.mk_mem_zipIdx_iff_getElem?]
  exact exists_comm

theorem mem_entriesOfList_iff {p : RowPosition} {rows : List Row} {e : CellAddress × Cell} :
    e ∈ entriesOfList p 0 rows ↔
      ∃ (i : Nat) (row : Row), rows[i]? = some row ∧ e ∈ entries (p.step (.child i)) row := by
  simp only [entriesOfList_eq, List.mem_flatMap, Prod.exists, List.mk_mem_zipIdx_iff_getElem?]
  exact exists_comm

theorem mem_entriesOfOption_iff {p : RowPosition} {o : Option Row} {e : CellAddress × Cell} :
    e ∈ entriesOfOption p o ↔ ∃ row, o = some row ∧ e ∈ entries p row := by
  cases o <;> simp [entriesOfOption]

/-- The entries of a row are its own cells and the entries of the rows that a step leads to. -/
theorem mem_entries_iff {p : RowPosition} {row : Row} {e : CellAddress × Cell} :
    e ∈ entries p row ↔
      (∃ (i : Nat) (cell : Cell), row.cells[i]? = some cell ∧ e ∈ cell.entries ⟨p, i, none⟩) ∨
        ∃ step below, row.step? step = some below ∧ e ∈ entries (p.step step) below := by
  obtain ⟨id, cells, children, expanded, collapsed⟩ := row
  simp only [entries, List.mem_append, mem_cellEntries_iff, mem_entriesOfList_iff,
    mem_entriesOfOption_iff]
  constructor
  · rintro (((h | ⟨i, below, hbelow, h⟩) | ⟨below, hbelow, h⟩) | ⟨below, hbelow, h⟩)
    · exact .inl h
    · exact .inr ⟨.child i, below, hbelow, h⟩
    · exact .inr ⟨.expandedSummary, below, hbelow, h⟩
    · exact .inr ⟨.collapsedSummary, below, hbelow, h⟩
  · rintro (h | ⟨step, below, hbelow, h⟩)
    · exact .inl (.inl (.inl h))
    · cases step with
      | child i => exact .inl (.inl (.inr ⟨i, below, hbelow, h⟩))
      | expandedSummary => exact .inl (.inr ⟨below, hbelow, h⟩)
      | collapsedSummary => exact .inr ⟨below, hbelow, h⟩

end Row

/-! ## Entries and addresses -/

namespace RowPosition

/-- The place at the end of a path. -/
def descend (p : RowPosition) (path : List RowStep) : RowPosition :=
  { p with path := p.path ++ path }

@[simp] theorem descend_nil (p : RowPosition) : p.descend [] = p := by simp [descend]

@[simp] theorem descend_step (p : RowPosition) (s : RowStep) (path : List RowStep) :
    (p.step s).descend path = p.descend (s :: path) := by simp [descend, step]

theorem descend_injective {p : RowPosition} {path path' : List RowStep}
    (h : p.descend path = p.descend path') : path = path' := by simpa [descend] using h

end RowPosition

theorem Cell.mem_entries_self (a : CellAddress) (cell : Cell) : (a, cell) ∈ cell.entries a := by
  cases cell <;> simp [entries]

namespace Row

/-- The cell in a row, or in one of its slots. -/
def cellAt? (row : Row) (index : Nat) (slot : Option String) : Option Cell :=
  row.cells[index]?.bind (·.slotCell? slot)

theorem wellFormed_of_mem {p : RowPosition} {row : Row}
    (h : ∀ e ∈ row.entries p, e.2.WellFormed) {i : Nat} {cell : Cell}
    (hcell : row.cells[i]? = some cell) : cell.WellFormed :=
  h (⟨p, i, none⟩, cell) (mem_entries_iff.2 (.inl ⟨i, cell, hcell, cell.mem_entries_self _⟩))

/-- The entries of a row are the cells at the ends of the paths from it. The induction follows the
nested rows, and the path grows by the step to one of them. -/
theorem mem_entries_iff_descend {p : RowPosition} {row : Row}
    (h : ∀ e ∈ row.entries p, e.2.WellFormed) {a : CellAddress} {c : Cell} :
    (a, c) ∈ row.entries p ↔ ∃ path below, a.row = p.descend path ∧
      row.descend? path = some below ∧ below.cellAt? a.cellIndex a.slot = some c := by
  induction row using Row.induction generalizing p with
  | row row ih =>
    have own {i : Nat} {cell : Cell} (hcell : row.cells[i]? = some cell) :=
      Cell.mem_entries_iff (wellFormed_of_mem h hcell) (c := c) (b := a) (a := ⟨p, i, none⟩) rfl
    have inner {step : RowStep} {below : Row} (hbelow : row.step? step = some below) :
        ∀ e ∈ below.entries (p.step step), e.2.WellFormed := fun e he =>
      h e (mem_entries_iff.2 (.inr ⟨step, below, hbelow, he⟩))
    rw [mem_entries_iff]
    constructor
    · rintro (⟨i, cell, hcell, hmem⟩ | ⟨step, below, hbelow, hmem⟩)
      · obtain ⟨hcontainer, hslot⟩ := (own hcell).1 hmem
        cases hcontainer
        exact ⟨[], row, by simp, rfl, by rw [cellAt?, hcell]; exact hslot⟩
      · obtain ⟨path, target, hrow, htarget, hc⟩ :=
          (ih step below hbelow (inner hbelow)).1 hmem
        refine ⟨step :: path, target, by simpa using hrow, ?_, hc⟩
        rw [descend?, hbelow]
        exact htarget
    · rintro ⟨path, target, hrow, htarget, hc⟩
      cases path with
      | nil =>
        cases htarget
        obtain ⟨cell, hcell, hslot⟩ := Option.bind_eq_some_iff.1 hc
        refine .inl ⟨_, cell, hcell, (own hcell).2 ⟨?_, hslot⟩⟩
        rw [CellAddress.container, hrow, RowPosition.descend_nil]
      | cons step path =>
        obtain ⟨below, hbelow, htarget⟩ := Option.bind_eq_some_iff.1 htarget
        refine .inr ⟨step, below, hbelow, (ih step below hbelow (inner hbelow)).2 ?_⟩
        exact ⟨path, target, by simpa using hrow, htarget, hc⟩

end Row

theorem Table.row?_eq_some_iff {t : Table} {band : Band} {path : List RowStep} {below : Row} :
    t.row? band path = some below ↔ ∃ (i : Nat) (rest : List RowStep) (row : Row),
      path = .child i :: rest ∧ (t.band band)[i]? = some row ∧ row.descend? rest = some below := by
  constructor
  · intro h
    unfold row? at h
    split at h
    · next i rest =>
      obtain ⟨row, hrow, hbelow⟩ := Option.bind_eq_some_iff.1 h
      exact ⟨i, rest, row, rfl, hrow, hbelow⟩
    · cases h
  · rintro ⟨i, rest, row, rfl, hrow, hbelow⟩
    exact Option.bind_eq_some_iff.2 ⟨row, hrow, hbelow⟩

theorem Section.entriesOfList_eq {sections : List Section} {start : Nat} :
    Section.entriesOfList start sections =
      (sections.zipIdx start).flatMap fun (s, i) => s.entries i := by
  induction sections generalizing start with
  | nil => rfl
  | cons s rest ih => simp [entriesOfList, ih]

theorem Band.mem_all (band : Band) : band ∈ Band.all := by cases band <;> decide

namespace Report

variable {r : Report}

/-- A cell in a slot is reached through the cell that the slot belongs to. -/
theorem cellAt?_eq_bind (a : CellAddress) :
    r.cellAt? a = (r.cellAt? a.container).bind (·.slotCell? a.slot) := by
  simp [cellAt?, CellAddress.container, Cell.slotCell?, Option.bind_assoc]

/-- The entries of a report are those of the rows of its bands. -/
theorem mem_cells_iff_rows {e : CellAddress × Cell} :
    e ∈ r.cells ↔ ∃ (n : Nat) (s : Section) (band : Band) (i : Nat) (row : Row),
      r.sections[n]? = some s ∧ (s.table.band band)[i]? = some row ∧
        e ∈ row.entries ⟨n, band, [.child i]⟩ := by
  simp only [cells, Section.entriesOfList_eq, List.mem_flatMap, Prod.exists,
    List.mk_mem_zipIdx_iff_getElem?, Section.entries, Row.mem_entriesOfList_iff]
  constructor
  · rintro ⟨s, n, hs, band, -, i, row, hrow, he⟩
    exact ⟨n, s, band, i, row, hs, hrow, he⟩
  · rintro ⟨n, s, band, i, row, hs, hrow, he⟩
    exact ⟨s, n, hs, band, band.mem_all, i, row, hrow, he⟩

/-- The traversal lists exactly the cells that are found at their addresses. -/
theorem mem_cells_iff (h : r.WellFormed) {a : CellAddress} {c : Cell} :
    (a, c) ∈ r.cells ↔ r.cellAt? a = some c := by
  have rows {n : Nat} {s : Section} {band : Band} {i : Nat} {row : Row}
      (hs : r.sections[n]? = some s) (hrow : (s.table.band band)[i]? = some row) :
      (a, c) ∈ row.entries ⟨n, band, [.child i]⟩ ↔ ∃ path below,
        a.row = RowPosition.descend ⟨n, band, [.child i]⟩ path ∧
          row.descend? path = some below ∧ below.cellAt? a.cellIndex a.slot = some c :=
    Row.mem_entries_iff_descend fun e he =>
      h e (mem_cells_iff_rows.2 ⟨n, s, band, i, row, hs, hrow, he⟩)
  have walk : r.cellAt? a = some c ↔ ∃ s row, r.sections[a.row.sectionIndex]? = some s ∧
      s.table.row? a.row.band a.row.path = some row ∧
        row.cellAt? a.cellIndex a.slot = some c := by
    simp [cellAt?, Row.cellAt?, Option.bind_eq_some_iff]
  rw [walk, mem_cells_iff_rows]
  constructor
  · rintro ⟨n, s, band, i, row, hs, hrow, he⟩
    obtain ⟨path, below, ha, hbelow, hc⟩ := (rows hs hrow).1 he
    refine ⟨s, below, by rw [ha]; exact hs, ?_, hc⟩
    rw [ha]
    exact Table.row?_eq_some_iff.2 ⟨i, path, row, rfl, hrow, hbelow⟩
  · rintro ⟨s, below, hs, hbelow, hc⟩
    obtain ⟨i, path, row, hpath, hrow, hbelow⟩ := Table.row?_eq_some_iff.1 hbelow
    refine ⟨_, s, _, i, row, hs, hrow, (rows hs hrow).2 ⟨path, below, ?_, hbelow, hc⟩⟩
    simp [RowPosition.descend, ← hpath]

end Report

/-! ## No address is listed twice -/

private theorem nodup_flatMap_zipIdx {α β : Type} {l : List α} {f : α × Nat → List β}
    (each : ∀ x ∈ l.zipIdx, (f x).Nodup)
    (apart : ∀ x y b, b ∈ f x → b ∈ f y → x.2 = y.2) : (l.zipIdx.flatMap f).Nodup := by
  refine List.nodup_flatMap.2 ⟨each, ?_⟩
  have indices : (l.zipIdx.map Prod.snd).Nodup := by
    rw [List.zipIdx_map_snd]
    exact List.nodup_range'
  exact (List.pairwise_map.1 indices).imp fun hne b hx hy => hne (apart _ _ b hx hy)

theorem Cell.container_of_mem_entries {cell : Cell} {a b : CellAddress} (ha : a.slot = none)
    (h : b ∈ (cell.entries a).map Prod.fst) : b.container = a := by
  obtain ⟨row, index, slot⟩ := a
  cases ha
  cases cell with
  | slotted c =>
    simp only [entries, List.map_cons, List.map_map, List.mem_cons, List.mem_map] at h
    rcases h with rfl | ⟨_, -, rfl⟩ <;> rfl
  | _ =>
    simp only [entries, List.map_cons, List.map_nil, List.mem_singleton] at h
    rw [h]
    rfl

theorem Cell.nodup_entries {cell : Cell} (hcell : cell.WellFormed) {a : CellAddress}
    (ha : a.slot = none) : ((cell.entries a).map Prod.fst).Nodup := by
  cases cell with
  | slotted c =>
    have keys := hcell.nodup
    simp only [entries, List.map_cons, List.map_map, List.nodup_cons]
    constructor
    · intro h
      obtain ⟨_, -, h⟩ := List.mem_map.1 h
      have hslot : some _ = a.slot := congrArg CellAddress.slot h
      simp [ha] at hslot
    · have injective : Function.Injective a.withSlot := fun s t h => by
        simpa [CellAddress.withSlot] using h
      have slots := keys.map injective
      rw [List.map_map] at slots
      exact slots
  | _ => simp [entries]

namespace Row

theorem exists_path_of_mem_entries {p : RowPosition} {row : Row} {a : CellAddress}
    (h : a ∈ (row.entries p).map Prod.fst) : ∃ path, a.row = p.descend path := by
  induction row using Row.induction generalizing p with
  | row row ih =>
    obtain ⟨e, he, rfl⟩ := List.mem_map.1 h
    rcases mem_entries_iff.1 he with ⟨i, cell, -, hmem⟩ | ⟨step, below, hbelow, hmem⟩
    · have := Cell.container_of_mem_entries rfl (List.mem_map_of_mem hmem)
      refine ⟨[], ?_⟩
      rw [RowPosition.descend_nil]
      exact congrArg CellAddress.row this
    · obtain ⟨path, hpath⟩ := ih step below hbelow (List.mem_map_of_mem hmem)
      exact ⟨step :: path, by simpa using hpath⟩

theorem step_eq_of_mem_entries {p : RowPosition} {row row' : Row} {s s' : RowStep}
    {a : CellAddress} (h : a ∈ (row.entries (p.step s)).map Prod.fst)
    (h' : a ∈ (row'.entries (p.step s')).map Prod.fst) : s = s' := by
  obtain ⟨path, hpath⟩ := exists_path_of_mem_entries h
  obtain ⟨path', hpath'⟩ := exists_path_of_mem_entries h'
  rw [hpath, RowPosition.descend_step, RowPosition.descend_step] at hpath'
  exact (List.cons.inj (RowPosition.descend_injective hpath')).1

theorem row_ne_of_mem_entries_step {p : RowPosition} {row : Row} {s : RowStep} {a : CellAddress}
    (h : a ∈ (row.entries (p.step s)).map Prod.fst) : a.row ≠ p := by
  obtain ⟨path, hpath⟩ := exists_path_of_mem_entries h
  rw [hpath, RowPosition.descend_step]
  intro heq
  cases RowPosition.descend_injective (heq.trans p.descend_nil.symm)

theorem row_eq_of_mem_cellEntries {p : RowPosition} {cells : List Cell} {a : CellAddress}
    (h : a ∈ (cellEntries p 0 cells).map Prod.fst) : a.row = p := by
  obtain ⟨e, he, rfl⟩ := List.mem_map.1 h
  obtain ⟨i, cell, -, hmem⟩ := mem_cellEntries_iff.1 he
  exact congrArg CellAddress.row (Cell.container_of_mem_entries rfl (List.mem_map_of_mem hmem))

theorem step_of_mem_entriesOfList {p : RowPosition} {rows : List Row} {a : CellAddress}
    (h : a ∈ (entriesOfList p 0 rows).map Prod.fst) :
    ∃ (i : Nat) (row : Row), a ∈ (row.entries (p.step (.child i))).map Prod.fst := by
  obtain ⟨e, he, rfl⟩ := List.mem_map.1 h
  obtain ⟨i, row, -, hmem⟩ := mem_entriesOfList_iff.1 he
  exact ⟨i, row, List.mem_map_of_mem hmem⟩

theorem step_of_mem_entriesOfOption {p : RowPosition} {o : Option Row} {a : CellAddress}
    (h : a ∈ (entriesOfOption p o).map Prod.fst) :
    ∃ row : Row, a ∈ (row.entries p).map Prod.fst := by
  obtain ⟨e, he, rfl⟩ := List.mem_map.1 h
  obtain ⟨row, -, hmem⟩ := mem_entriesOfOption_iff.1 he
  exact ⟨row, List.mem_map_of_mem hmem⟩

theorem nodup_cellEntries {p : RowPosition} {cells : List Cell}
    (h : ∀ cell ∈ cells, cell.WellFormed) : ((cellEntries p 0 cells).map Prod.fst).Nodup := by
  rw [cellEntries_eq, List.map_flatMap]
  refine nodup_flatMap_zipIdx (fun x hx => Cell.nodup_entries (h _ ?_) rfl) fun x y a hx hy => ?_
  · exact List.mem_of_getElem? (List.mem_zipIdx_iff_getElem?.1 hx)
  · have hx := Cell.container_of_mem_entries rfl hx
    have hy := Cell.container_of_mem_entries rfl hy
    exact congrArg CellAddress.cellIndex (hx.symm.trans hy)

theorem nodup_entriesOfList {p : RowPosition} {rows : List Row}
    (h : ∀ (i : Nat) (row : Row), rows[i]? = some row →
      ((row.entries (p.step (.child i))).map Prod.fst).Nodup) :
    ((entriesOfList p 0 rows).map Prod.fst).Nodup := by
  rw [entriesOfList_eq, List.map_flatMap]
  refine nodup_flatMap_zipIdx (fun x hx => h _ _ (List.mem_zipIdx_iff_getElem?.1 hx)) ?_
  intro x y a hx hy
  exact RowStep.child.inj (step_eq_of_mem_entries hx hy)

theorem nodup_entriesOfOption {p : RowPosition} {o : Option Row}
    (h : ∀ row, o = some row → ((row.entries p).map Prod.fst).Nodup) :
    ((entriesOfOption p o).map Prod.fst).Nodup := by
  cases o with
  | none => exact List.nodup_nil
  | some row => exact h row rfl

theorem nodup_entries {p : RowPosition} {row : Row} (h : ∀ e ∈ row.entries p, e.2.WellFormed) :
    ((row.entries p).map Prod.fst).Nodup := by
  induction row using Row.induction generalizing p with
  | row row ih =>
    have below (step : RowStep) {below : Row} (hbelow : row.step? step = some below) :
        ((below.entries (p.step step)).map Prod.fst).Nodup :=
      ih step below hbelow fun e he => h e (mem_entries_iff.2 (.inr ⟨step, below, hbelow, he⟩))
    have own : ∀ cell ∈ row.cells, cell.WellFormed := fun cell hcell =>
      have ⟨_, hcell⟩ := List.mem_iff_getElem?.1 hcell
      wellFormed_of_mem h hcell
    obtain ⟨id, cells, children, expanded, collapsed⟩ := row
    simp only [entries, List.map_append]
    refine List.Nodup.append (.append (.append (nodup_cellEntries own)
      (nodup_entriesOfList fun i row hrow => below (.child i) hrow) ?_)
      (nodup_entriesOfOption fun row hrow => below .expandedSummary hrow) ?_)
      (nodup_entriesOfOption fun row hrow => below .collapsedSummary hrow) ?_
    · intro a ha hchildren
      obtain ⟨i, row, hrow⟩ := step_of_mem_entriesOfList hchildren
      exact row_ne_of_mem_entries_step hrow (row_eq_of_mem_cellEntries ha)
    · intro a ha hexpanded
      obtain ⟨row, hrow⟩ := step_of_mem_entriesOfOption hexpanded
      rcases List.mem_append.1 ha with ha | ha
      · exact row_ne_of_mem_entries_step hrow (row_eq_of_mem_cellEntries ha)
      · obtain ⟨i, row', hrow'⟩ := step_of_mem_entriesOfList ha
        cases step_eq_of_mem_entries hrow hrow'
    · intro a ha hcollapsed
      obtain ⟨row, hrow⟩ := step_of_mem_entriesOfOption hcollapsed
      rcases List.mem_append.1 ha with ha | ha
      · rcases List.mem_append.1 ha with ha | ha
        · exact row_ne_of_mem_entries_step hrow (row_eq_of_mem_cellEntries ha)
        · obtain ⟨i, row', hrow'⟩ := step_of_mem_entriesOfList ha
          cases step_eq_of_mem_entries hrow hrow'
      · obtain ⟨row', hrow'⟩ := step_of_mem_entriesOfOption ha
        cases step_eq_of_mem_entries hrow hrow'

end Row

namespace Report

variable {r : Report}

/-- The bands of a section have different places, and so have the sections. -/
theorem nodup_cells (h : r.WellFormed) : (r.cells.map Prod.fst).Nodup := by
  have rows {n : Nat} {s : Section} {band : Band} {a : CellAddress}
      (ha : a ∈ (Row.entriesOfList ⟨n, band, []⟩ 0 (s.table.band band)).map Prod.fst) :
      a.row.sectionIndex = n ∧ a.row.band = band := by
    obtain ⟨i, row, hrow⟩ := Row.step_of_mem_entriesOfList ha
    obtain ⟨path, hpath⟩ := Row.exists_path_of_mem_entries hrow
    rw [hpath]
    exact ⟨rfl, rfl⟩
  have place {n : Nat} {s : Section} {a : CellAddress}
      (ha : a ∈ (s.entries n).map Prod.fst) : a.row.sectionIndex = n := by
    obtain ⟨e, he, rfl⟩ := List.mem_map.1 ha
    obtain ⟨band, -, he⟩ := List.mem_flatMap.1 he
    exact (rows (List.mem_map_of_mem he)).1
  rw [cells, Section.entriesOfList_eq, List.map_flatMap]
  refine nodup_flatMap_zipIdx (fun x hx => ?_) fun x y a hx hy => (place hx).symm.trans (place hy)
  obtain ⟨s, n⟩ := x
  simp only [Section.entries, List.map_flatMap]
  refine List.nodup_flatMap.2 ⟨fun band _ => Row.nodup_entriesOfList fun i row hrow => ?_, ?_⟩
  · refine Row.nodup_entries fun e he => h e (mem_cells_iff_rows.2 ?_)
    exact ⟨n, s, band, i, row, List.mem_zipIdx_iff_getElem?.1 hx, hrow, he⟩
  · have bands : Band.all.Nodup := by decide
    refine bands.imp fun hne => ?_
    intro a hx hy
    exact hne ((rows hx).2.symm.trans (rows hy).2)

/-- Traversal and navigation are inverse to each other: no address is listed twice, every cell that
is listed is found at its address, and every cell that is found at an address is listed with it. -/
theorem traversal_inverts_navigation (h : r.WellFormed) :
    (r.cells.map Prod.fst).Nodup ∧ ∀ a c, (a, c) ∈ r.cells ↔ r.cellAt? a = some c :=
  ⟨nodup_cells h, fun _ _ => mem_cells_iff h⟩

end Report

/-! ## A report with rows below rows -/

namespace Nested

def title : ConstCell := ⟨some "title", 1, .text "Journey", .none⟩

def dayRate : InputCell := ⟨some "dayRate", 1, .scalar .int, some (.int 3), .none, .empty⟩

/-- An input that is always disabled. -/
def nightRate : InputCell :=
  let never : AvailabilityRule :=
    ⟨.enabledWhen (.const (.bool false) (.scalar .bool)), [], .enabled⟩
  ⟨some "nightRate", 1, .scalar .int, some (.int 5), ⟨none, some never⟩, .empty⟩

def rate : SlottedCell Cell :=
  ⟨some "rate", 1, [("day", .input dayRate), ("night", .input nightRate)], "day"⟩

/-- A cell that reads the slotted cell through its default slot. -/
def total : OperationCell :=
  ⟨some "total", 1, .cellValue (.inSection "rate" ⟨none, .defaultSlot⟩) (.scalar .int), .none⟩

def remark : InputCell := ⟨some "remark", 1, .optional .text, none, .none, .empty⟩

/-- A child row, with the slotted cell in its summary. -/
def leg : Row :=
  ⟨"leg", [.null ⟨none, 1⟩], [], none, some ⟨"rates", [.slotted rate], [], none, none⟩⟩

def trip : Row :=
  ⟨"trip", [.const title], [leg], some ⟨"total", [.operation total], [], none, none⟩, none⟩

def sections : List Section :=
  [⟨"travel", "", ⟨[⟨"amount", ""⟩], [], [trip], []⟩⟩,
    ⟨"notes", "", ⟨[⟨"text", ""⟩], [], [], [⟨"note", [.input remark], [], none, none⟩]⟩⟩]

def report : Report := ⟨"report", sections⟩

/-- The place of the row in which the slotted cell lies. -/
def rates : RowPosition := ⟨0, .body, [.child 0, .child 0, .collapsedSummary]⟩

/-- The place of the row with the remark. -/
def note : RowPosition := ⟨1, .footer, [.child 0]⟩

theorem cells_report : report.cells =
    [(⟨⟨0, .body, [.child 0]⟩, 0, none⟩, .const title),
      (⟨⟨0, .body, [.child 0, .child 0]⟩, 0, none⟩, .null ⟨none, 1⟩),
      (⟨rates, 0, none⟩, .slotted rate), (⟨rates, 0, some "day"⟩, .input dayRate),
      (⟨rates, 0, some "night"⟩, .input nightRate),
      (⟨⟨0, .body, [.child 0, .expandedSummary]⟩, 0, none⟩, .operation total),
      (⟨note, 0, none⟩, .input remark)] := rfl

theorem wellFormed : report.WellFormed := by
  have slots : Keyed.Sorted rate.slots := by
    simp only [Keyed.Sorted, rate, List.map_cons, List.map_nil, List.pairwise_pair]
    decide
  rw [Report.WellFormed, cells_report]
  simpa [Cell.WellFormed] using slots

/-- A slot in the summary of a child row is listed, and the row above that summary has none of its
own to be found in. -/
theorem traversal_inverts_navigation_nested :
    (report.cells.map Prod.fst).Nodup ∧
      ((⟨rates, 0, some "night"⟩, .input nightRate) ∈ report.cells) ∧
        ∀ c, ((⟨⟨0, .body, [.child 0, .collapsedSummary]⟩, 0, none⟩, c) ∉ report.cells) := by
  obtain ⟨hnodup, hiff⟩ := Report.traversal_inverts_navigation wellFormed
  refine ⟨hnodup, (hiff _ _).2 rfl, fun c hc => ?_⟩
  cases (hiff _ c).1 hc

end Nested

end ReportCalc
