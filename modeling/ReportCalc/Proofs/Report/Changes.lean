import ReportCalc.Proofs.Report.Mapping
import ReportCalc.Report.Index

/-!
# Changing cells in place

A `CellChange` changes cells without touching their ids, and leaves slotted cells to the changes of
the cells in their slots. The report in which it is carried out has the same places and the same
index, and locators mean the same places in it (`ReportIndex.resolve_change`). Writing to one cell
is such a change (`Report.replace_focus?_eq_change`).
-/

namespace ReportCalc

/-- A change of cells, depending on their addresses. -/
structure CellChange where
  apply : CellAddress → Cell → Cell
  id_apply : ∀ a c, (apply a c).id = c.id
  slotted?_apply : ∀ a c, (apply a c).slotted? = c.slotted?

variable {u v w : CellChange}

theorem Keyed.lookup_map {α β : Type} (f : String → α → β) (entries : List (String × α))
    (key : String) :
    (entries.map fun (k, v) => (k, f k v)).lookup key = (entries.lookup key).map (f key) := by
  induction entries with
  | nil => rfl
  | cons entry rest ih =>
    obtain ⟨k, v⟩ := entry
    simp only [List.map_cons, lookup_cons, ih]
    split
    · next h => rw [h, Option.map_some]
    · rfl

/-- Replacing the value of a key is a change of the one entry with that key. -/
theorem Keyed.replace_eq_map {α : Type} {f : String → α → α} {entries : List (String × α)}
    (hkeys : (entries.map Prod.fst).Nodup) {key : String} {value : α}
    (hlookup : entries.lookup key = some value) (hf : ∀ k v, k ≠ key → f k v = v) :
    replace key (f key value) entries = entries.map fun (k, v) => (k, f k v) := by
  induction entries with
  | nil => rfl
  | cons entry rest ih =>
    obtain ⟨k, v⟩ := entry
    obtain ⟨hk, hrest⟩ := List.nodup_cons.1 hkeys
    rw [lookup_cons] at hlookup
    by_cases h : key = k
    · subst h
      cases (if_pos rfl).symm.trans hlookup
      have same : ∀ e ∈ rest, (e.1, f e.1 e.2) = e := fun e he => by
        rw [hf e.1 e.2 fun heq => hk (List.mem_map.2 ⟨e, he, heq⟩)]
      simp only [replace, if_true, List.map_cons]
      rw [List.map_congr_left same, List.map_id']
    · rw [if_neg h] at hlookup
      simp only [replace, if_neg h, List.map_cons, hf k v (Ne.symm h), ih hrest hlookup]

/-! ## Cells -/

namespace Cell

variable {a : CellAddress} {c : Cell}

theorem exists_slotted_or (c : Cell) : (∃ d, c = .slotted d) ∨ c.slotted? = none := by
  cases c <;> simp [slotted?]

theorem eq_slotted_of_slotted? {d : SlottedCell Cell} (h : c.slotted? = some d) :
    c = .slotted d := by
  cases c <;> cases h
  rfl

theorem wellFormed_of_slotted?_eq_none (h : c.slotted? = none) : c.WellFormed := by
  cases c with
  | slotted => cases h
  | _ => trivial

theorem entries_of_slotted?_eq_none (h : c.slotted? = none) : c.entries a = [(a, c)] := by
  cases c with
  | slotted => cases h
  | _ => rfl

/-- The cell after the change; in a slotted cell the cells in the slots are changed. -/
def change (u : CellChange) (a : CellAddress) : Cell → Cell
  | .slotted c =>
    match a.slot with
    | none => .slotted { c with
        slots := c.slots.map fun (slot, inner) => (slot, u.apply (a.withSlot slot) inner) }
    | some _ => .slotted c
  | c => u.apply a c

theorem apply_slotted (u : CellChange) (a : CellAddress) (d : SlottedCell Cell) :
    u.apply a (.slotted d) = .slotted d := eq_slotted_of_slotted? (u.slotted?_apply a _)

theorem change_of_slotted?_eq_none (h : c.slotted? = none) : c.change u a = u.apply a c := by
  cases c with
  | slotted => cases h
  | _ => rfl

/-- Cells in slots have no slots of their own that would be changed. -/
theorem change_of_slot {slot : String} (h : a.slot = some slot) : c.change u a = u.apply a c := by
  cases c with
  | slotted d => simp only [change, h, apply_slotted]
  | _ => rfl

theorem change_slotted {d : SlottedCell Cell} (h : a.slot = none) :
    (slotted d).change u a = .slotted { d with
      slots := d.slots.map fun (slot, inner) => (slot, u.apply (a.withSlot slot) inner) } := by
  rw [change, h]

@[simp] theorem id_change : (c.change u a).id = c.id := by
  cases c with
  | slotted d => cases h : a.slot <;> simp [change, h, id]
  | _ => exact u.id_apply a _

@[simp] theorem label_change : (c.change u a).label = c.label := by simp [label]

theorem wellFormed_change (h : c.WellFormed) : (c.change u a).WellFormed := by
  rcases c.exists_slotted_or with ⟨d, rfl⟩ | hc
  · cases hslot : a.slot with
    | none =>
      rw [change_slotted hslot]
      change Keyed.Sorted (d.slots.map _)
      rw [Keyed.Sorted, List.map_map]
      exact h
    | some slot =>
      rw [change_of_slot hslot, apply_slotted]
      exact h
  · rw [change_of_slotted?_eq_none hc]
    exact wellFormed_of_slotted?_eq_none ((u.slotted?_apply a c).trans hc)

theorem change_change (h : ∀ a c, v.apply a (u.apply a c) = w.apply a c) :
    (c.change u a).change v a = c.change w a := by
  rcases c.exists_slotted_or with ⟨d, rfl⟩ | hc
  · cases hslot : a.slot with
    | none => simp [change, hslot, h]
    | some slot => simp only [change, hslot]
  · rw [change_of_slotted?_eq_none hc, change_of_slotted?_eq_none hc,
      change_of_slotted?_eq_none ((u.slotted?_apply a c).trans hc), h]

theorem change_eq_self (h : ∀ b c, b.container = a → u.apply b c = c) (ha : a.slot = none) :
    c.change u a = c := by
  obtain ⟨row, index, slot⟩ := a
  cases ha
  rcases c.exists_slotted_or with ⟨d, rfl⟩ | hc
  · have inner : ∀ entry ∈ d.slots, (entry.1, u.apply
        (CellAddress.withSlot ⟨row, index, none⟩ entry.1) entry.2) = entry := fun entry _ => by
      rw [h _ _ rfl]
    simp only [change]
    rw [List.map_congr_left inner, List.map_id']
  · rw [change_of_slotted?_eq_none hc, h _ _ rfl]

/-- Writing to a cell, or to the cell in one of its slots, changes that one only. -/
theorem replace_focusSlot?_eq_change (hc : c.WellFormed) {focus : Focus Cell Cell}
    (hfocus : c.focusSlot? a.slot = some focus) (hpart : focus.part.slotted? = none)
    (hu : ∀ b d, b ≠ a → u.apply b d = d) :
    focus.replace (u.apply a focus.part) = c.change u a.container := by
  obtain ⟨row, index, slot⟩ := a
  cases slot with
  | none =>
    cases hfocus
    exact (change_of_slotted?_eq_none hpart).symm
  | some slot =>
    rcases c.exists_slotted_or with ⟨d, rfl⟩ | hnone
    · obtain ⟨inner, hinner, rfl⟩ := Option.map_eq_some_iff.1 hfocus
      rw [change_slotted rfl]
      have slots := Keyed.replace_eq_map (f := fun s inner =>
        u.apply (CellAddress.withSlot ⟨row, index, none⟩ s) inner) hc.nodup hinner
        fun s inner hs => hu _ inner fun heq => hs (by cases heq; rfl)
      exact congrArg (fun slots => Cell.slotted { d with slots }) slots
    · cases c with
      | slotted => cases hnone
      | _ => cases hfocus

end Cell

theorem respectsSlots_change : RespectsSlots (Cell.change u) := by
  intro a c ha
  rcases c.exists_slotted_or with ⟨d, rfl⟩ | hc
  · have inner (slot : String) (c : Cell) : c.change u (a.withSlot slot) =
        u.apply (a.withSlot slot) c := Cell.change_of_slot rfl
    rw [Cell.change_slotted ha]
    simp [Cell.entries, changeEntry, inner, Cell.change_slotted ha]
  · have hchange : (c.change u a).slotted? = none := by
      rw [Cell.change_of_slotted?_eq_none hc, u.slotted?_apply, hc]
    rw [Cell.entries_of_slotted?_eq_none hchange, Cell.entries_of_slotted?_eq_none hc]
    rfl

/-! ## Reports -/

/-- The cell at the same address in the changed report. -/
def Resolved.change (u : CellChange) (target : Resolved) : Resolved :=
  { target with cell := target.cell.change u target.address }

@[simp] theorem Resolved.label_change (target : Resolved) :
    (target.change u).label = target.label := Cell.label_change

namespace Report

/-- The report with its cells changed. -/
def change (u : CellChange) (r : Report) : Report := r.mapCells (Cell.change u)

variable {r : Report}

theorem cells_change : (r.change u).cells = r.cells.map fun (a, c) => (a, c.change u a) :=
  cells_mapCells respectsSlots_change r

theorem change_change (h : ∀ a c, v.apply a (u.apply a c) = w.apply a c) :
    (r.change u).change v = r.change w := by
  simp only [change, mapCells_mapCells, Cell.change_change h]

theorem change_eq_self (h : ∀ a c, u.apply a c = c) : r.change u = r :=
  mapCells_eq_self fun _ _ ha => Cell.change_eq_self (fun b c _ => h b c) ha

theorem WellFormed.change (h : r.WellFormed) : (r.change u).WellFormed := by
  intro entry hentry
  rw [cells_change] at hentry
  obtain ⟨⟨a, c⟩, hmem, rfl⟩ := List.mem_map.1 hentry
  exact Cell.wellFormed_change (h _ hmem)

theorem cellAt?_change (h : r.WellFormed) {a : CellAddress} :
    (r.change u).cellAt? a = (r.cellAt? a).map (Cell.change u a) := by
  refine Option.ext fun c => ?_
  rw [← mem_cells_iff h.change, cells_change, Option.map_eq_some_iff, List.mem_map]
  constructor
  · rintro ⟨⟨b, d⟩, hmem, heq⟩
    cases heq
    exact ⟨d, (mem_cells_iff h).1 hmem, rfl⟩
  · rintro ⟨d, hd, rfl⟩
    exact ⟨(a, d), (mem_cells_iff h).2 hd, rfl⟩

@[simp] theorem sections_change :
    (r.change u).sections = r.sections.mapIdx (Section.mapCells (Cell.change u)) := rfl

@[simp] theorem sectionId_change (n : Nat) : (r.change u).sectionId n = r.sectionId n := by
  unfold sectionId
  rw [sections_change, List.getElem?_mapIdx]
  cases r.sections[n]? <;> rfl

/-- Writing to a cell through a focus changes that one only. -/
theorem replace_focus?_eq_change (h : r.WellFormed) {a : CellAddress} {focus : Focus Report Cell}
    (hfocus : r.focus? a = some focus) (hpart : focus.part.slotted? = none)
    (hu : ∀ b c, b ≠ a → u.apply b c = c) :
    focus.replace (u.apply a focus.part) = r.change u := by
  obtain ⟨cell, inner, hcell, hinner, heq, hreplace⟩ := replace_focus?_eq_mapCells hfocus
  have wellFormed : cell.WellFormed := h _ ((mem_cells_iff h).2 hcell)
  rw [heq] at hpart ⊢
  refine hreplace _ _ (fun b d hslot hb => ?_)
    (Cell.replace_focusSlot?_eq_change wellFormed hinner hpart hu)
  refine Cell.change_eq_self (fun b' d hb' => hu b' d fun heq => hb ?_) hslot
  rw [← hb', heq]

/-- Writing a cell back after a change of that one only is the change of the report. -/
theorem eq_change_of_writeCell? (h : r.WellFormed) {a : CellAddress} {cell : Cell} {r' : Report}
    (hcell : r.cellAt? a = some cell) (hpart : cell.slotted? = none)
    (hu : ∀ b c, b ≠ a → u.apply b c = c)
    (hwrite : r.writeCell? a (u.apply a cell) = some r') : r' = r.change u := by
  obtain ⟨focus, hfocus, rfl⟩ := Option.map_eq_some_iff.1 hwrite
  have hfound := map_part_focus? (r := r) (a := a)
  rw [hfocus, hcell] at hfound
  cases Option.some.inj hfound
  exact replace_focus?_eq_change h hfocus hpart hu

end Report

namespace ReportIndex

variable {r : Report}

/-- The index does not depend on anything but the ids of cells. -/
@[simp] theorem build_change : build (r.change u) = build r := by
  have sections : (build (r.change u)).sections = (build r).sections := by
    refine congrArg List.reverse (List.ext_getElem? fun i => ?_)
    rw [Report.sections_change]
    simp only [List.getElem?_map, List.getElem?_zipIdx, List.getElem?_mapIdx, Option.map_map]
    rfl
  have cells : (build (r.change u)).cells = (build r).cells := by
    simp only [build, Report.cells_change, List.filterMap_map, Function.comp_def, Cell.id_change]
  exact congrArg₂ ReportIndex.mk sections cells

/-- Of a slotted cell only the ids of the slots and the default matter. -/
theorem narrow_slotted {cellId : String} {b : CellAddress} {c d : SlottedCell Cell}
    {choice : SlotChoice} (hslots : ∀ s, (c.slot? s).isSome = (d.slot? s).isSome)
    (hdefault : c.defaultSlot = d.defaultSlot) :
    narrow cellId b (.slotted c) choice = narrow cellId b (.slotted d) choice := by
  obtain ⟨slot, selection⟩ := choice
  cases slot <;> simp only [narrow, hslots, hdefault]

/-- Of other cells nothing matters. -/
theorem narrow_of_slotted?_eq_none {cellId : String} {b : CellAddress} {c d : Cell}
    {choice : SlotChoice} (hc : c.slotted? = none) (hd : d.slotted? = none) :
    narrow cellId b c choice = narrow cellId b d choice := by
  obtain ⟨slot, selection⟩ := choice
  cases c with
  | slotted => cases hc
  | _ =>
    cases d with
    | slotted => cases hd
    | _ => cases slot <;> rfl

theorem narrow_change {cellId : String} {a b : CellAddress} {c : Cell} {choice : SlotChoice} :
    narrow cellId b (c.change u a) choice = narrow cellId b c choice := by
  rcases c.exists_slotted_or with ⟨d, rfl⟩ | hc
  · cases hslot : a.slot with
    | some slot => rw [Cell.change_of_slot hslot, Cell.apply_slotted]
    | none =>
      rw [Cell.change_slotted hslot]
      refine narrow_slotted (fun s => ?_) rfl
      have found := Keyed.lookup_map (fun slot inner => u.apply (a.withSlot slot) inner) d.slots s
      exact (congrArg Option.isSome found).trans Option.isSome_map
  · rw [Cell.change_of_slotted?_eq_none hc]
    exact narrow_of_slotted?_eq_none ((u.slotted?_apply a c).trans hc) hc

theorem locate_change (h : r.WellFormed) {index : ReportIndex} {locator : Locator}
    {current : Option CellAddress} :
    index.locate (r.change u) locator current = index.locate r locator current := by
  have inSection (n : Nat) (cellId : String) (choice : SlotChoice) :
      index.locateIn (r.change u) n cellId choice = index.locateIn r n cellId choice := by
    unfold locateIn
    rw [Report.sectionId_change]
    cases (index.cells.lookup cellId).filter (·.row.sectionIndex == n) with
    | none => rfl
    | some a =>
      simp only [Report.cellAt?_change h]
      cases r.cellAt? a with
      | none => rfl
      | some cell => exact narrow_change
  cases locator <;> simp only [locate, inSection]

/-- A locator means the same place as before. -/
theorem resolve_change (h : r.WellFormed) {index : ReportIndex} {locator : Locator}
    {current : Option CellAddress} :
    index.resolve (r.change u) locator current =
      (index.resolve r locator current).map (Resolved.change u) := by
  unfold resolve
  rw [locate_change h]
  cases index.locate r locator current with
  | error e => rfl
  | ok a =>
    simp only [bind, Except.bind, Report.cellAt?_change h, Report.sectionId_change]
    cases r.cellAt? a <;> rfl

end ReportIndex

end ReportCalc
