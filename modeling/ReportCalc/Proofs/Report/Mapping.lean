import ReportCalc.Proofs.Report.Traversal

/-!
# Changing cells in place

`Report.mapCells` changes every cell of a report by a function of its address and leaves everything
else as it is. Writing through a focus is such a change, of one cell only
(`Report.replace_focus?_eq_mapCells`).
-/

namespace ReportCalc

variable {g h : CellAddress → Cell → Cell}

private theorem mapIdx_eq_self {α : Type} {l : List α} {f : Nat → α → α}
    (hf : ∀ i a, f i a = a) : l.mapIdx f = l :=
  List.ext_getElem? fun i => by cases h : l[i]? <;> simp [h, hf]

/-! ## Rows -/

namespace Row

mutual

/-- The row with its cells, and those of the nested rows, changed by a function of the address. -/
def mapCells (g : CellAddress → Cell → Cell) (p : RowPosition) : Row → Row
  | ⟨id, cells, children, expanded, collapsed⟩ =>
    ⟨id, cells.mapIdx fun i => g ⟨p, i, none⟩, mapCellsOfList g p 0 children,
      mapCellsOfOption g (p.step .expandedSummary) expanded,
      mapCellsOfOption g (p.step .collapsedSummary) collapsed⟩

/-- The rows below a place, numbered from an index on, with their cells changed. -/
def mapCellsOfList (g : CellAddress → Cell → Cell) (p : RowPosition) : Nat → List Row → List Row
  | _, [] => []
  | i, row :: rest => mapCells g (p.step (.child i)) row :: mapCellsOfList g p (i + 1) rest

/-- The row that may be missing with its cells changed. -/
def mapCellsOfOption (g : CellAddress → Cell → Cell) (p : RowPosition) : Option Row → Option Row
  | none => none
  | some row => some (mapCells g p row)

end

theorem mapCellsOfList_eq {p : RowPosition} {rows : List Row} {start : Nat} :
    mapCellsOfList g p start rows =
      rows.mapIdx fun i row => row.mapCells g (p.step (.child (start + i))) := by
  induction rows generalizing start with
  | nil => rfl
  | cons row rest ih =>
    simp [mapCellsOfList, ih, List.mapIdx_cons, Nat.add_assoc, Nat.add_comm 1]

variable {p : RowPosition} {row : Row}

@[simp] theorem id_mapCells : (row.mapCells g p).id = row.id := by
  cases row
  rfl

@[simp] theorem cells_mapCells :
    (row.mapCells g p).cells = row.cells.mapIdx fun i => g ⟨p, i, none⟩ := by
  cases row
  rfl

@[simp] theorem step?_mapCells {s : RowStep} :
    (row.mapCells g p).step? s = (row.step? s).map (mapCells g (p.step s)) := by
  obtain ⟨id, cells, children, expanded, collapsed⟩ := row
  cases s with
  | child i => simp [step?, mapCells, mapCellsOfList_eq]
  | expandedSummary => cases expanded <;> rfl
  | collapsedSummary => cases collapsed <;> rfl

/-- A row is known by its id, its cells and the rows that steps lead to. -/
theorem ext_of_step? {row row' : Row} (hid : row.id = row'.id) (hcells : row.cells = row'.cells)
    (hstep : ∀ s, row.step? s = row'.step? s) : row = row' := by
  obtain ⟨id, cells, children, expanded, collapsed⟩ := row
  obtain ⟨id', cells', children', expanded', collapsed'⟩ := row'
  cases hid
  cases hcells
  have hchildren : children = children' := List.ext_getElem? fun i => hstep (.child i)
  have hexpanded : expanded = expanded' := hstep .expandedSummary
  have hcollapsed : collapsed = collapsed' := hstep .collapsedSummary
  rw [hchildren, hexpanded, hcollapsed]

/-- A change that concerns no cell of the row or below it does nothing. -/
theorem mapCells_eq_self (hg : ∀ path i c, g ⟨p.descend path, i, none⟩ c = c) :
    row.mapCells g p = row := by
  induction row using Row.induction generalizing p with
  | row row ih =>
    refine ext_of_step? id_mapCells ?_ fun s => ?_
    · rw [cells_mapCells, mapIdx_eq_self fun i c => ?_]
      simpa using hg [] i c
    · rw [step?_mapCells]
      cases hbelow : row.step? s with
      | none => rfl
      | some below =>
        rw [Option.map_some, ih s below hbelow fun path => ?_]
        simpa using hg (s :: path)

theorem mapCells_mapCells :
    (row.mapCells h p).mapCells g p = row.mapCells (fun a c => g a (h a c)) p := by
  induction row using Row.induction generalizing p with
  | row row ih =>
    refine ext_of_step? (by simp) (by simp [List.mapIdx_mapIdx, Function.comp_def]) fun s => ?_
    simp only [step?_mapCells, Option.map_map]
    cases hbelow : row.step? s with
    | none => rfl
    | some below => exact congrArg some (ih s below hbelow)

end Row

/-! ## Reports -/

/-- The table of a section with its cells changed. -/
def Table.mapCells (g : CellAddress → Cell → Cell) (n : Nat) (t : Table) : Table where
  columns := t.columns
  header := Row.mapCellsOfList g ⟨n, .header, []⟩ 0 t.header
  body := Row.mapCellsOfList g ⟨n, .body, []⟩ 0 t.body
  footer := Row.mapCellsOfList g ⟨n, .footer, []⟩ 0 t.footer

/-- The section with its cells changed. -/
def Section.mapCells (g : CellAddress → Cell → Cell) (n : Nat) (s : Section) : Section :=
  { s with table := s.table.mapCells g n }

/-- The report with every cell changed by a function of its address, a slotted cell as a whole. -/
def Report.mapCells (g : CellAddress → Cell → Cell) (r : Report) : Report :=
  { r with sections := r.sections.mapIdx (Section.mapCells g) }

namespace Table

variable {n : Nat} {t : Table}

@[simp] theorem band_mapCells {band : Band} :
    (t.mapCells g n).band band =
      (t.band band).mapIdx fun i row => row.mapCells g ⟨n, band, [.child i]⟩ := by
  cases band <;> simp [Table.mapCells, Table.band, Row.mapCellsOfList_eq, RowPosition.step]

theorem ext_of_band {t t' : Table} (hcolumns : t.columns = t'.columns)
    (hband : ∀ b, t.band b = t'.band b) : t = t' := by
  obtain ⟨columns, header, body, footer⟩ := t
  obtain ⟨columns', header', body', footer'⟩ := t'
  have hheader : header = header' := hband .header
  have hbody : body = body' := hband .body
  have hfooter : footer = footer' := hband .footer
  rw [hheader, hbody, hfooter, show columns = columns' from hcolumns]

theorem mapCells_mapCells :
    (t.mapCells h n).mapCells g n = t.mapCells (fun a c => g a (h a c)) n :=
  ext_of_band rfl fun b => by simp [List.mapIdx_mapIdx, Function.comp_def, Row.mapCells_mapCells]

theorem mapCells_eq_self
    (hg : ∀ a c, a.row.sectionIndex = n → a.slot = none → g a c = c) : t.mapCells g n = t := by
  refine ext_of_band rfl fun b => ?_
  rw [band_mapCells, mapIdx_eq_self fun i row => ?_]
  exact Row.mapCells_eq_self fun path i c => hg _ c rfl rfl

end Table

theorem Section.mapCells_mapCells {n : Nat} {s : Section} :
    (s.mapCells h n).mapCells g n = s.mapCells (fun a c => g a (h a c)) n := by
  rw [mapCells, mapCells, mapCells, Table.mapCells_mapCells]

namespace Report

variable {r : Report}

@[simp] theorem getElem?_sections_mapCells {n : Nat} :
    (r.mapCells g).sections[n]? = r.sections[n]?.map (Section.mapCells g n) := by
  simp [mapCells]

theorem mapCells_mapCells :
    (r.mapCells h).mapCells g = r.mapCells fun a c => g a (h a c) := by
  simp [mapCells, List.mapIdx_mapIdx, Function.comp_def, Section.mapCells_mapCells]

theorem mapCells_eq_self (hg : ∀ a c, a.slot = none → g a c = c) : r.mapCells g = r := by
  have sections : r.sections.mapIdx (Section.mapCells g) = r.sections :=
    mapIdx_eq_self fun n s => by
      rw [Section.mapCells, Table.mapCells_eq_self fun a c _ => hg a c]
  rw [mapCells, sections]

end Report

/-! ## The traversal of a changed report -/

section Entries

variable (g) in
/-- The change of an entry. -/
def changeEntry (e : CellAddress × Cell) : CellAddress × Cell := (e.1, g e.1 e.2)

/-- The change of a slotted cell changes the cells in its slots the same way. -/
def RespectsSlots (g : CellAddress → Cell → Cell) : Prop :=
  ∀ (a : CellAddress) (cell : Cell), a.slot = none →
    (g a cell).entries a = (cell.entries a).map (changeEntry g)

theorem Row.cellEntries_mapIdx (hg : RespectsSlots g) (p : RowPosition) (cells : List Cell)
    (start : Nat) :
    cellEntries p start (cells.mapIdx fun i => g ⟨p, start + i, none⟩) =
      (cellEntries p start cells).map (changeEntry g) := by
  induction cells generalizing start with
  | nil => rfl
  | cons cell rest ih =>
    have shift : (fun i => g ⟨p, start + (i + 1), none⟩) = fun i => g ⟨p, start + 1 + i, none⟩ :=
      funext fun i => by rw [Nat.add_comm i, ← Nat.add_assoc]
    simp only [List.mapIdx_cons, Nat.add_zero]
    rw [shift, cellEntries, cellEntries, hg ⟨p, start, none⟩ cell rfl, ih, List.map_append]

mutual

theorem Row.entries_mapCells (hg : RespectsSlots g) (p : RowPosition) : ∀ row : Row,
    (row.mapCells g p).entries p = (row.entries p).map (changeEntry g)
  | ⟨id, cells, children, expanded, collapsed⟩ => by
    have own := Row.cellEntries_mapIdx hg p cells 0
    simp only [Nat.zero_add] at own
    simp only [mapCells, entries, List.map_append, own, entriesOfList_mapCells hg,
      entriesOfOption_mapCells hg]

theorem Row.entriesOfList_mapCells (hg : RespectsSlots g) (p : RowPosition) :
    ∀ (start : Nat) (rows : List Row),
    entriesOfList p start (mapCellsOfList g p start rows) =
      (entriesOfList p start rows).map (changeEntry g)
  | _, [] => rfl
  | start, row :: rest => by
    simp only [mapCellsOfList, entriesOfList, List.map_append, entries_mapCells hg,
      entriesOfList_mapCells hg]

theorem Row.entriesOfOption_mapCells (hg : RespectsSlots g) (p : RowPosition) :
    ∀ o : Option Row,
    entriesOfOption p (mapCellsOfOption g p o) = (entriesOfOption p o).map (changeEntry g)
  | none => rfl
  | some row => entries_mapCells hg p row

end

variable (hg : RespectsSlots g)
include hg

theorem Section.entries_mapCells {n : Nat} {s : Section} :
    (s.mapCells g n).entries n = (s.entries n).map (changeEntry g) := by
  have rows {band : Band} : Row.entriesOfList ⟨n, band, []⟩ 0 ((s.mapCells g n).table.band band) =
      (Row.entriesOfList ⟨n, band, []⟩ 0 (s.table.band band)).map (changeEntry g) := by
    rw [← Row.entriesOfList_mapCells hg, Row.mapCellsOfList_eq]
    simp [mapCells, RowPosition.step]
  simp only [entries, List.map_flatMap, rows]

theorem Section.entriesOfList_mapIdx (sections : List Section) (start : Nat) :
    entriesOfList start (sections.mapIdx fun i => Section.mapCells g (start + i)) =
      (entriesOfList start sections).map (changeEntry g) := by
  induction sections generalizing start with
  | nil => rfl
  | cons s rest ih =>
    have shift : (fun i => Section.mapCells g (start + (i + 1))) =
        fun i => Section.mapCells g (start + 1 + i) :=
      funext fun i => by rw [Nat.add_comm i, ← Nat.add_assoc]
    simp only [List.mapIdx_cons, Nat.add_zero]
    rw [shift, entriesOfList, entriesOfList, entries_mapCells hg, ih, List.map_append]

/-- The cells of a changed report are the changed cells, in the same order. -/
theorem Report.cells_mapCells (r : Report) :
    (r.mapCells g).cells = r.cells.map (changeEntry g) := by
  have sections := Section.entriesOfList_mapIdx hg r.sections 0
  simp only [Nat.zero_add] at sections
  exact sections

end Entries

/-! ## Writing through a focus

A focus is there for exactly the cells that reading finds. -/

theorem Row.map_part_focusStep? {row : Row} {s : RowStep} :
    (row.focusStep? s).map (·.part) = row.step? s := by
  cases s <;>
    simp [focusStep?, step?, Focus.item?, Focus.content?, Focus.map, Function.comp_def]

theorem Row.map_part_focus? {row : Row} {path : List RowStep} :
    (row.focus? path).map (·.part) = row.descend? path := by
  induction path generalizing row with
  | nil => rfl
  | cons s rest ih =>
    rw [descend?, ← map_part_focusStep?, focus?]
    cases row.focusStep? s with
    | none => rfl
    | some below => simpa [Function.comp_def, Focus.compose] using ih

theorem Table.map_part_focus? {t : Table} {band : Band} {path : List RowStep} :
    (t.focus? band path).map (·.part) = t.row? band path := by
  unfold Table.focus? row?
  split
  · next i rest =>
    simp only [Focus.item?]
    cases (t.band band)[i]? with
    | none => rfl
    | some row =>
      simpa [Function.comp_def, Focus.compose, Focus.map] using Row.map_part_focus?
  · rfl

theorem Cell.map_part_focusSlot? {cell : Cell} {slot : Option String} :
    (cell.focusSlot? slot).map (·.part) = cell.slotCell? slot := by
  cases slot with
  | none => rfl
  | some slot => cases cell <;> simp [focusSlot?, slotCell?, slotted?, Function.comp_def]

theorem Report.map_part_focus? {r : Report} {a : CellAddress} :
    (r.focus? a).map (·.part) = r.cellAt? a := by
  unfold Report.focus? cellAt?
  simp only [Focus.item?, Option.bind_eq_bind, Option.pure_def]
  cases r.sections[a.row.sectionIndex]? with
  | none => rfl
  | some s =>
    simp only [Option.map_some, Option.bind_some, ← Table.map_part_focus?]
    cases s.table.focus? a.row.band a.row.path with
    | none => rfl
    | some row =>
      simp only [Option.bind_some, Option.map_some]
      cases row.part.cells[a.cellIndex]? with
      | none => rfl
      | some cell =>
        simp only [Option.map_some, Option.bind_some, ← Cell.map_part_focusSlot?]
        cases cell.focusSlot? a.slot <;> rfl

/-- Giving an entry the value that it has changes nothing. -/
theorem Keyed.replace_eq_self {α : Type} {key : String} {value : α} {entries : List (String × α)}
    (h : entries.lookup key = some value) : replace key value entries = entries := by
  induction entries with
  | nil => rfl
  | cons entry rest ih =>
    obtain ⟨head, v⟩ := entry
    rw [lookup_cons] at h
    by_cases hkey : key = head
    · rw [if_pos hkey] at h
      cases h
      rw [replace, if_pos hkey]
    · rw [if_neg hkey] at h
      rw [replace, if_neg hkey, ih h]

theorem Cell.replace_focusSlot?_part {cell : Cell} {slot : Option String} {focus : Focus Cell Cell}
    (h : cell.focusSlot? slot = some focus) : focus.replace focus.part = cell := by
  cases slot with
  | none =>
    cases h
    rfl
  | some slot =>
    cases cell with
    | slotted c =>
      obtain ⟨inner, hinner, rfl⟩ := Option.map_eq_some_iff.1 h
      exact congrArg (fun slots => Cell.slotted { c with slots }) (Keyed.replace_eq_self hinner)
    | _ => cases h

namespace Row

theorem step?_replace_focusStep? {row : Row} {s : RowStep} {focus : Focus Row Row}
    (hfocus : row.focusStep? s = some focus) (below : Row) {s' : RowStep} :
    (focus.replace below).step? s' = if s' = s then some below else row.step? s' := by
  cases s with
  | child i =>
    simp only [focusStep?, Focus.item?, Option.map_map, Option.map_eq_some_iff] at hfocus
    obtain ⟨part, hpart, rfl⟩ := hfocus
    cases s' with
    | child j =>
      have hlt := (List.getElem?_eq_some_iff.1 hpart).1
      simp only [Function.comp, Focus.map, step?, List.getElem?_set, RowStep.child.injEq,
        if_pos hlt, eq_comm]
    | _ => rfl
  | expandedSummary =>
    simp only [focusStep?, Focus.content?, Option.map_map, Option.map_eq_some_iff] at hfocus
    obtain ⟨part, -, rfl⟩ := hfocus
    cases s' <;> rfl
  | collapsedSummary =>
    simp only [focusStep?, Focus.content?, Option.map_map, Option.map_eq_some_iff] at hfocus
    obtain ⟨part, -, rfl⟩ := hfocus
    cases s' <;> rfl

/-- Writing to a row that a step leads to changes only that row. -/
theorem focusStep?_eq_some {row : Row} {s : RowStep} {focus : Focus Row Row}
    (hfocus : row.focusStep? s = some focus) : row.step? s = some focus.part ∧
      ∀ below, (focus.replace below).id = row.id ∧ (focus.replace below).cells = row.cells := by
  cases s <;>
    simp only [focusStep?, Focus.item?, Focus.content?, Option.map_map,
      Option.map_eq_some_iff] at hfocus <;>
    obtain ⟨part, hpart, rfl⟩ := hfocus <;>
    exact ⟨hpart, fun _ => ⟨rfl, rfl⟩⟩

/-- The row with its own cells changed, and the nested rows left as they are. -/
def mapOwnCells (g : CellAddress → Cell → Cell) (p : RowPosition) (row : Row) : Row :=
  { row with cells := row.cells.mapIdx fun i => g ⟨p, i, none⟩ }

/-- Writing to the row at the end of a path is a change of the cells of that row only. -/
theorem replace_focus?_eq_mapCells {path : List RowStep} {row : Row} {p : RowPosition}
    {focus : Focus Row Row} (hfocus : row.focus? path = some focus)
    (hg : ∀ q i c, q ≠ p.descend path → g ⟨q, i, none⟩ c = c) :
    row.descend? path = some focus.part ∧
      focus.replace (focus.part.mapOwnCells g (p.descend path)) = row.mapCells g p := by
  induction path generalizing row p focus with
  | nil =>
    cases hfocus
    refine ⟨rfl, ?_⟩
    rw [RowPosition.descend_nil] at hg ⊢
    change row.mapOwnCells g p = _
    refine ext_of_step? (by simp [mapOwnCells]) (by simp [mapOwnCells]) fun s => ?_
    have same : row.step? s = (row.step? s).map (mapCells g (p.step s)) := by
      cases row.step? s with
      | none => rfl
      | some below =>
        rw [Option.map_some, mapCells_eq_self fun path i c => hg _ i c ?_]
        intro h
        cases RowPosition.descend_injective
          ((p.descend_step s path).symm.trans (h.trans p.descend_nil.symm))
    exact same.trans step?_mapCells.symm
  | cons step path ih =>
    obtain ⟨outer, houter, hfocus⟩ := Option.bind_eq_some_iff.1 hfocus
    obtain ⟨inner, hinner, rfl⟩ := Option.map_eq_some_iff.1 hfocus
    obtain ⟨hstep, hkeep⟩ := focusStep?_eq_some houter
    obtain ⟨hpart, hreplace⟩ := ih (p := p.step step) hinner (by simpa using hg)
    rw [RowPosition.descend_step] at hreplace
    refine ⟨Option.bind_eq_some_iff.2 ⟨outer.part, hstep, hpart⟩, ?_⟩
    change outer.replace (inner.replace (inner.part.mapOwnCells g _)) = _
    rw [hreplace]
    have away {s : RowStep} (hs : s ≠ step) (rest : List RowStep) (i : Nat) (c : Cell) :
        g ⟨(p.step s).descend rest, i, none⟩ c = c := by
      refine hg _ i c fun h => hs ?_
      rw [RowPosition.descend_step] at h
      exact (List.cons.inj (RowPosition.descend_injective h)).1
    -- the row itself and the other rows below it are not at the end of the path
    refine ext_of_step? ((hkeep _).1.trans id_mapCells.symm) ?_ fun s => ?_
    · rw [(hkeep _).2, cells_mapCells, mapIdx_eq_self fun i c => hg p i c ?_]
      intro h
      cases RowPosition.descend_injective (p.descend_nil.trans h)
    · rw [step?_replace_focusStep? houter, step?_mapCells]
      split
      · next h => rw [h, hstep, Option.map_some]
      · next h =>
        cases hbelow : row.step? s with
        | none => rfl
        | some below => rw [Option.map_some, mapCells_eq_self (away h)]

end Row

theorem set_eq_mapIdx {α : Type} {l : List α} {i : Nat} {x : α} {f : Nat → α → α}
    (hi : l[i]? = some x) (hf : ∀ j a, j ≠ i → f j a = a) : l.set i (f i x) = l.mapIdx f := by
  refine List.ext_getElem? fun j => ?_
  obtain ⟨hlt, rfl⟩ := List.getElem?_eq_some_iff.1 hi
  rw [List.getElem?_set, List.getElem?_mapIdx]
  by_cases h : i = j
  · subst h
    simp [hlt]
  · rw [if_neg h]
    cases hj : l[j]? with
    | none => rfl
    | some a => rw [Option.map_some, hf j a (Ne.symm h)]

namespace Table

theorem band_withBand {t : Table} {band b : Band} {rows : List Row} :
    (t.withBand band rows).band b = if b = band then rows else t.band b := by
  cases band <;> cases b <;> rfl

theorem columns_withBand {t : Table} {band : Band} {rows : List Row} :
    (t.withBand band rows).columns = t.columns := by
  cases band <;> rfl

/-- Writing to a row of a table changes the cells of that row only. -/
theorem replace_focus?_eq_mapCells {t : Table} {n : Nat} {band : Band} {path : List RowStep}
    {focus : Focus Table Row} (hfocus : t.focus? band path = some focus)
    (hg : ∀ q i c, q ≠ ⟨n, band, path⟩ → g ⟨q, i, none⟩ c = c) :
    t.row? band path = some focus.part ∧
      focus.replace (focus.part.mapOwnCells g ⟨n, band, path⟩) = t.mapCells g n := by
  unfold Table.focus? at hfocus
  split at hfocus
  · next i rest =>
    obtain ⟨top, htop, hfocus⟩ := Option.bind_eq_some_iff.1 hfocus
    obtain ⟨below, hbelow, rfl⟩ := Option.map_eq_some_iff.1 hfocus
    obtain ⟨row, hrow, rfl⟩ := Option.map_eq_some_iff.1 htop
    obtain ⟨hpart, hreplace⟩ :=
      Row.replace_focus?_eq_mapCells (p := ⟨n, band, [.child i]⟩) hbelow hg
    refine ⟨row?_eq_some_iff.2 ⟨i, rest, row, rfl, hrow, hpart⟩, ?_⟩
    change t.withBand band ((t.band band).set i (below.replace (below.part.mapOwnCells g _))) = _
    rw [show (⟨n, band, .child i :: rest⟩ : RowPosition) =
      (⟨n, band, [.child i]⟩ : RowPosition).descend rest from rfl, hreplace]
    have away (b : Band) (j : Nat) (h : (b, j) ≠ (band, i)) (row : Row) :
        row.mapCells g ⟨n, b, [.child j]⟩ = row := by
      refine Row.mapCells_eq_self fun path k c => hg _ k c fun heq => h ?_
      simp only [RowPosition.descend, RowPosition.mk.injEq, List.cons_append, List.cons.injEq,
        RowStep.child.injEq] at heq
      rw [heq.2.1, heq.2.2.1]
    refine ext_of_band columns_withBand fun b => ?_
    rw [band_withBand, band_mapCells]
    split
    · next h =>
      subst h
      exact set_eq_mapIdx (f := fun j row => row.mapCells g ⟨n, b, [.child j]⟩) hrow
        fun j row hj => away b j (fun heq => hj (Prod.mk.inj heq).2) row
    · next h =>
      exact (mapIdx_eq_self fun j row => away b j (fun heq => h (Prod.mk.inj heq).1) row).symm
  · cases hfocus

end Table

namespace Report

/-- Writing to a cell of a report, or to one of its slots, changes that cell only. -/
theorem replace_focus?_eq_mapCells {r : Report} {a : CellAddress} {focus : Focus Report Cell}
    (hfocus : r.focus? a = some focus) :
    ∃ cell inner, r.cellAt? a.container = some cell ∧ cell.focusSlot? a.slot = some inner ∧
      focus.part = inner.part ∧ ∀ (g : CellAddress → Cell → Cell) (x : Cell),
        (∀ b c, b.slot = none → b ≠ a.container → g b c = c) →
          inner.replace x = g a.container cell → focus.replace x = r.mapCells g := by
  obtain ⟨⟨n, band, path⟩, index, slot⟩ := a
  simp only [focus?, Option.bind_eq_bind, Option.pure_def, Option.bind_eq_some_iff,
    Option.some.injEq] at hfocus
  obtain ⟨inReport, hreport, inSection, hsection, inRow, hrow, inner, hinner, rfl⟩ := hfocus
  obtain ⟨s, hs, rfl⟩ := Option.map_eq_some_iff.1 hreport
  obtain ⟨cell, hcell, rfl⟩ := Option.map_eq_some_iff.1 hrow
  have walk : r.cellAt? ⟨⟨n, band, path⟩, index, none⟩ = some cell := by
    have found := (Table.replace_focus?_eq_mapCells (g := fun _ c => c) (n := n) hsection
      fun _ _ _ _ => rfl).1
    simp only [cellAt?, Option.bind_eq_bind, Option.bind_eq_some_iff]
    exact ⟨s, hs, _, found, cell, hcell, rfl⟩
  refine ⟨cell, inner, walk, hinner, rfl, fun g x hg hx => ?_⟩
  have outside (q : RowPosition) (i : Nat) (c : Cell) (hq : q ≠ ⟨n, band, path⟩) :
      g ⟨q, i, none⟩ c = c := by
    refine hg _ c rfl fun heq => hq ?_
    exact congrArg CellAddress.row heq
  obtain ⟨-, hreplace⟩ := Table.replace_focus?_eq_mapCells hsection outside
  have cells : inSection.part.cells.set index (inner.replace x) =
      inSection.part.cells.mapIdx fun i => g ⟨⟨n, band, path⟩, i, none⟩ := by
    rw [hx]
    exact set_eq_mapIdx (f := fun i => g ⟨⟨n, band, path⟩, i, none⟩) hcell
      fun i c hi => hg _ c rfl fun heq => hi (congrArg CellAddress.cellIndex heq)
  have row : { inSection.part with cells := inSection.part.cells.set index (inner.replace x) } =
      inSection.part.mapOwnCells g ⟨n, band, path⟩ :=
    congrArg (fun cells => { inSection.part with cells }) cells
  change Report.mk r.id (r.sections.set n ⟨s.id, s.title, inSection.replace
    { inSection.part with cells := inSection.part.cells.set index (inner.replace x) }⟩) = _
  rw [row, hreplace]
  have sections : r.sections.set n (s.mapCells g n) = r.sections.mapIdx (Section.mapCells g) := by
    refine set_eq_mapIdx hs fun i s hi => ?_
    rw [Section.mapCells, Table.mapCells_eq_self fun b c hb hslot => hg b c hslot fun heq => hi ?_]
    rw [← hb, heq]
    rfl
  exact congrArg (fun sections => { r with sections }) sections

/-- Writing back what is there changes nothing. -/
theorem replace_focus?_part {r : Report} {a : CellAddress} {focus : Focus Report Cell}
    (hfocus : r.focus? a = some focus) : focus.replace focus.part = r := by
  obtain ⟨cell, inner, -, hinner, hpart, hreplace⟩ := replace_focus?_eq_mapCells hfocus
  rw [hreplace (fun _ c => c) _ (fun _ _ _ _ => rfl)
    (hpart ▸ Cell.replace_focusSlot?_part hinner)]
  exact mapCells_eq_self fun _ _ _ => rfl

end Report

end ReportCalc
