import ReportCalc.Proofs.Report.Declaration
import ReportCalc.Proofs.Report.Mapping

/-!
# Writing a cell

`Report.focus?` walks to a cell for writing, apart from the walk for reading. It ends at the same
cell, and another cell that is put in its place is found there and nowhere else: everything else is
as it was (`Report.WritesOnly`, `Report.writing_reaches_one_cell`). For writing is a change of the
cells of the report (`Report.replace_focus?_eq_mapCells`) that keeps all of them but one, and after
such a change, whatever cells it concerns, navigation finds the changed cells and rows at the same
places (`Report.cellAt?_mapCells`, `Report.rowAt?_mapCells`).
-/

namespace ReportCalc

variable {g : CellAddress → Cell → Cell}

/-! ## Reading a changed report -/

namespace Row

variable {row : Row} {p : RowPosition}

theorem descend?_mapCells {path : List RowStep} :
    (row.mapCells g p).descend? path = (row.descend? path).map (mapCells g (p.descend path)) := by
  induction path generalizing row p with
  | nil => simp [descend?]
  | cons s rest ih =>
    rw [descend?, descend?, step?_mapCells, ← RowPosition.descend_step]
    cases row.step? s with
    | none => rfl
    | some below => exact ih

theorem cellAt?_mapCells {i : Nat} {slot : Option String} :
    (row.mapCells g p).cellAt? i slot =
      row.cells[i]?.bind fun c => (g ⟨p, i, none⟩ c).slotCell? slot := by
  rw [cellAt?, cells_mapCells, List.getElem?_mapIdx, Option.bind_map]
  rfl

end Row

theorem Table.row?_mapCells {t : Table} {n : Nat} {band : Band} {path : List RowStep} :
    (t.mapCells g n).row? band path = (t.row? band path).map (Row.mapCells g ⟨n, band, path⟩) := by
  unfold row?
  split
  · next i rest =>
    rw [band_mapCells, List.getElem?_mapIdx]
    cases (t.band band)[i]? with
    | none => rfl
    | some row => exact Row.descend?_mapCells
  · rfl

namespace Report

variable {r : Report}

theorem cellAt?_eq_rowAt? (a : CellAddress) :
    r.cellAt? a = (r.rowAt? a.row).bind (·.cellAt? a.cellIndex a.slot) := by
  simp [cellAt?, rowAt?, Row.cellAt?, Option.bind_assoc]

theorem rowAt?_mapCells (p : RowPosition) :
    (r.mapCells g).rowAt? p = (r.rowAt? p).map (Row.mapCells g p) := by
  rw [rowAt?, rowAt?, getElem?_sections_mapCells]
  cases r.sections[p.sectionIndex]? with
  | none => rfl
  | some s => exact Table.row?_mapCells

/-- What is read in a slot is read in the changed cell that the slot belongs to. -/
theorem cellAt?_mapCells (a : CellAddress) :
    (r.mapCells g).cellAt? a =
      (r.cellAt? a.container).bind fun c => (g a.container c).slotCell? a.slot := by
  rw [cellAt?_eq_rowAt?, cellAt?_eq_rowAt?, rowAt?_mapCells]
  cases hrow : r.rowAt? a.row with
  | none => simp [CellAddress.container, hrow]
  | some row =>
    rw [Option.map_some, Option.bind_some, Row.cellAt?_mapCells]
    simp only [CellAddress.container, hrow, Option.bind_some, Row.cellAt?]
    cases row.cells[a.cellIndex]? <;> rfl

end Report

/-! ## Slots -/

namespace Keyed

variable {α : Type} {key k : String} {value : α} {entries : List (String × α)}

theorem lookup_replace : (replace key value entries).lookup k =
    if k = key then (entries.lookup key).map fun _ => value else entries.lookup k := by
  induction entries with
  | nil => simp [replace]
  | cons entry rest ih =>
    obtain ⟨head, v⟩ := entry
    by_cases h : key = head
    · subst h
      by_cases hk : k = key <;> simp [replace, lookup_cons, hk]
    · by_cases hk : k = head
      · subst hk
        simp [replace, h, Ne.symm h]
      · simp [replace, lookup_cons, h, hk, ih]

end Keyed

namespace Cell

variable {cell : Cell} {slot : Option String} {focus : Focus Cell Cell}

/-- The cell that is written is read again, and other slots hold what they held. -/
theorem slotCell?_replace_focusSlot? (h : cell.focusSlot? slot = some focus) (x : Cell) :
    (focus.replace x).slotCell? slot = some x ∧ ∀ s t, slot = some s → t ≠ s →
      (focus.replace x).slotCell? (some t) = cell.slotCell? (some t) := by
  cases slot with
  | none =>
    cases h
    exact ⟨rfl, nofun⟩
  | some s =>
    cases cell with
    | slotted c =>
      obtain ⟨inner, hinner, rfl⟩ := Option.map_eq_some_iff.1 h
      have read (t : String) :
          (Cell.slotted { c with slots := Keyed.replace s x c.slots }).slotCell? (some t) =
            if t = s then (c.slots.lookup s).map fun _ => x else c.slots.lookup t :=
        Keyed.lookup_replace
      refine ⟨?_, ?_⟩
      · refine (read s).trans ?_
        rw [if_pos rfl, show c.slots.lookup s = some inner from hinner]
        rfl
      · rintro _ t ⟨⟩ ht
        exact (read t).trans (if_neg ht)
    | _ => cases h

end Cell

namespace Report

variable {r r' : Report} {a : CellAddress} {cell : Cell} {focus : Focus Report Cell}

/-- The second report is the first one with another cell at an address, and with everything else as
it was: the sections with their titles and columns, the rows with their ids and with the rows nested
in them, the cells of other rows and at other indexes, and the other slots of the same cell. -/
structure WritesOnly (r r' : Report) (a : CellAddress) (cell : Cell) : Prop where
  target : r'.cellAt? a = some cell
  id : r'.id = r.id
  sections : r'.sections.map (fun s => (s.id, s.title, s.table.columns)) =
    r.sections.map fun s => (s.id, s.title, s.table.columns)
  rows : ∀ p, (r'.rowAt? p).map (·.id) = (r.rowAt? p).map (·.id)
  elsewhere : ∀ b, b.row ≠ a.row ∨ b.cellIndex ≠ a.cellIndex → r'.cellAt? b = r.cellAt? b
  otherSlots : ∀ slot other, a.slot = some slot → other ≠ slot →
    r'.cellAt? (a.withSlot other) = r.cellAt? (a.withSlot other)

theorem sections_mapCells {α : Type} (f : Section → α) (hf : ∀ n s, f (s.mapCells g n) = f s) :
    (r.mapCells g).sections.map f = r.sections.map f := by
  refine List.ext_getElem? fun n => ?_
  rw [List.getElem?_map, List.getElem?_map, getElem?_sections_mapCells, Option.map_map]
  exact congrArg (Option.map · _) (funext (hf n))

theorem writesOnly_replace (hfocus : r.focus? a = some focus) (x : Cell) :
    r.WritesOnly (focus.replace x) a x := by
  obtain ⟨cell, inner, hcell, hinner, -, hreplace⟩ := replace_focus?_eq_mapCells hfocus
  obtain ⟨hread, hothers⟩ := Cell.slotCell?_replace_focusSlot? hinner x
  rw [hreplace (fun b c => if b = a.container then inner.replace x else c) x
    (fun b c _ hb => if_neg hb) (if_pos rfl).symm]
  refine ⟨?_, rfl, sections_mapCells _ fun _ _ => rfl, fun p => ?_, fun b hb => ?_,
    fun slot other hslot hother => ?_⟩
  · rw [cellAt?_mapCells, hcell, Option.bind_some, if_pos rfl, hread]
  · rw [rowAt?_mapCells, Option.map_map]
    exact congrArg (Option.map · _) (funext fun _ => Row.id_mapCells)
  · have hne : b.container ≠ a.container := by
      intro h
      obtain ⟨hrow, hindex, -⟩ := CellAddress.mk.inj h
      exact hb.elim (· hrow) (· hindex)
    simp only [cellAt?_mapCells, if_neg hne]
    exact (cellAt?_eq_bind b).symm
  · rw [cellAt?_mapCells, cellAt?_eq_bind (a.withSlot other)]
    have hcontainer : (a.withSlot other).container = a.container := rfl
    rw [hcontainer, hcell, Option.bind_some, Option.bind_some, if_pos rfl]
    exact hothers slot other hslot hother

/-- Navigation for writing reaches the cell that navigation for reading finds, at the same
addresses, and nothing else. Writing back what is there changes nothing. Another cell that is
written is read again at the address, and everything else is as before: the sections with their
columns, the rows with their ids and the way they are nested, the cells of other rows and at other
indexes, and when the address is one of a slot, the other slots of the same cell. -/
theorem writing_reaches_one_cell (r : Report) (a : CellAddress) :
    (r.focus? a).map (·.part) = r.cellAt? a ∧
      ∀ focus, r.focus? a = some focus →
        focus.replace focus.part = r ∧ ∀ cell, r.WritesOnly (focus.replace cell) a cell :=
  ⟨map_part_focus?, fun _ hfocus => ⟨replace_focus?_part hfocus, writesOnly_replace hfocus⟩⟩

end Report

namespace Nested

/-- Writing to a slot in the summary of a child row leaves the other slot and other sections alone,
and the row that the summary belongs to keeps its id. -/
theorem writing_reaches_one_cell_nested :
    ∃ focus, report.focus? ⟨rates, 0, some "night"⟩ = some focus ∧
      focus.part = .input nightRate ∧
      (focus.replace (.const title)).cellAt? ⟨rates, 0, some "night"⟩ = some (.const title) ∧
      (focus.replace (.const title)).cellAt? ⟨rates, 0, some "day"⟩ = some (.input dayRate) ∧
      (focus.replace (.const title)).cellAt? ⟨note, 0, none⟩ = some (.input remark) ∧
      ((focus.replace (.const title)).rowAt? ⟨0, .body, [.child 0, .child 0]⟩).map (·.id) =
        some "leg" := by
  obtain ⟨hpart, hwrite⟩ := Report.writing_reaches_one_cell report ⟨rates, 0, some "night"⟩
  obtain ⟨focus, hfocus, hnight⟩ := Option.map_eq_some_iff.1
    (hpart.trans (show report.cellAt? ⟨rates, 0, some "night"⟩ = some (.input nightRate) from rfl))
  have written := (hwrite focus hfocus).2 (.const title)
  exact ⟨focus, hfocus, hnight, written.target,
    (written.otherSlots "night" "day" rfl (by decide)).trans rfl,
    (written.elsewhere ⟨note, 0, none⟩ (.inl (by decide))).trans rfl,
    (written.rows ⟨0, .body, [.child 0, .child 0]⟩).trans rfl⟩

end Nested

end ReportCalc
