import Mathlib.Data.List.Induction
import ReportCalc.Proofs.Report.Building

/-!
# Slots under the builders

A slotted cell is made of slots that fit (`SlottedCell.Fits`), and the builders keep it that way: of
its own id, span, slots and default slot the same cell can be made again (`SlottedCell.Remade`),
however many builders it has gone through. What carries this is that another span of the cell is
handed down to every slot (`SlottedCell.Fits.withSpan`). As the slots have the span of their cell at
all times, going back to the old span undoes a change of it (`Cell.withSpan_withSpan`).
-/

namespace ReportCalc

namespace Keyed

variable {α : Type} {entries : List (String × α)}

/-- An entry whose key comes after all others is put at the end. -/
theorem insert_eq_append {key : String} {value : α} (h : ∀ entry ∈ entries, entry.1 < key) :
    insert key value entries = entries ++ [(key, value)] := by
  induction entries with
  | nil => rfl
  | cons entry rest ih =>
    obtain ⟨k, v⟩ := entry
    obtain ⟨hk, hrest⟩ := List.forall_mem_cons.1 h
    have hne : key ≠ k := fun heq => String.lt_irrefl k (heq ▸ hk)
    rw [insert, if_neg hne, if_neg (String.lt_asymm hk), ih hrest, List.cons_append]

/-- Entries that are in order already stay as they are. -/
theorem ofList_eq_self (h : Sorted entries) : ofList entries = entries := by
  induction entries using List.reverseRecOn with
  | nil => rfl
  | append_singleton rest entry ih =>
    rw [Sorted, List.map_append, List.pairwise_append] at h
    obtain ⟨hrest, -, hlast⟩ := h
    have below : ∀ e ∈ rest, e.1 < entry.1 := fun e he =>
      hlast e.1 (List.mem_map_of_mem he) entry.1 (List.mem_singleton_self _)
    have hinit := ih hrest
    unfold ofList at hinit ⊢
    rw [List.foldl_append, hinit]
    exact insert_eq_append below

end Keyed

/-! ## Making a cell again -/

namespace SlottedCell

/-- The cell can be made of its own id, span, slots and default slot. -/
def Remade (c : SlottedCell Cell) : Prop :=
  ∃ id, c.id = some id ∧ make id c.span c.slots c.defaultSlot = .ok c

variable {c : SlottedCell Cell}

theorem remade_iff : c.Remade ↔
    c.id.isSome = true ∧ Keyed.Sorted c.slots ∧ Fits c.span c.slots c.defaultSlot := by
  obtain ⟨id, span, slots, defaultSlot⟩ := c
  constructor
  · rintro ⟨name, rfl, hmake⟩
    obtain ⟨heq, hfits⟩ := make_eq_ok_iff.1 hmake
    have hslots : slots = Keyed.ofList slots := congrArg SlottedCell.slots heq
    rw [← hslots] at hfits
    exact ⟨rfl, hslots ▸ Keyed.sorted_ofList slots, hfits⟩
  · rintro ⟨hid, hsorted, hfits⟩
    obtain ⟨name, rfl⟩ := Option.isSome_iff_exists.1 hid
    refine ⟨name, rfl, make_eq_ok_iff.2 ?_⟩
    rw [Keyed.ofList_eq_self hsorted]
    exact ⟨rfl, hfits⟩

theorem remade_of_make {id defaultSlot : String} {span : UInt64} {slots : List (String × Cell)}
    (h : make id span slots defaultSlot = .ok c) : c.Remade := by
  obtain ⟨rfl, hfits⟩ := make_eq_ok_iff.1 h
  exact remade_iff.2 ⟨rfl, Keyed.sorted_ofList slots, hfits⟩

end SlottedCell

theorem Cell.span_withSpan (cell : Cell) (span : UInt64) : (cell.withSpan span).span = span := by
  cases cell <;> rfl

/-- Slots still fit when all of them are given the new span. -/
theorem SlottedCell.Fits.withSpan {old : UInt64} {slots : List (String × Cell)}
    {defaultSlot : String} (h : Fits old slots defaultSlot) (span : UInt64) :
    Fits span (slots.map fun (slot, cell) => (slot, cell.withSpan span)) defaultSlot where
  nonempty := mt List.map_eq_nil_iff.1 h.nonempty
  named := List.forall_mem_map.2 h.named
  flat := List.forall_mem_map.2 fun slot hslot => Cell.slotted?_withSpan span (h.flat slot hslot)
  even := List.forall_mem_map.2 fun slot _ => slot.2.span_withSpan span
  default := by
    rw [List.map_map]
    exact h.default

/-! ## The builders -/

/-- A use of one of the builders that cells of all sorts have. -/
inductive CellBuilder where
  | withId (id : String)
  | withSpan (span : UInt64)
  | withValidation (chain : ValidationRule)
  | withAvailability (chain : AvailabilityRule)

namespace CellBuilder

def apply : CellBuilder → Cell → Cell
  | .withId id => Cell.withId id
  | .withSpan span => Cell.withSpan span
  | .withValidation chain => Cell.withValidation chain
  | .withAvailability chain => Cell.withAvailability chain

/-- The cell after several builders, one after the other. -/
def applyAll (builders : List CellBuilder) (cell : Cell) : Cell :=
  builders.foldl (fun cell builder => builder.apply cell) cell

end CellBuilder

namespace SlottedCell.Remade

variable {c : SlottedCell Cell}

/-- One builder leaves a slotted cell that can be made again. -/
theorem apply (h : c.Remade) (builder : CellBuilder) :
    ∃ d, builder.apply (.slotted c) = .slotted d ∧ d.Remade := by
  obtain ⟨hid, hsorted, hfits⟩ := remade_iff.1 h
  cases builder with
  | withId id => exact ⟨_, rfl, remade_iff.2 ⟨rfl, hsorted, hfits⟩⟩
  | withSpan span =>
    refine ⟨_, rfl, remade_iff.2 ?_⟩
    rw [Cell.withSpanSlots_eq_map]
    refine ⟨hid, ?_, hfits.withSpan span⟩
    rw [Keyed.Sorted, List.map_map]
    exact hsorted
  | withValidation chain | withAvailability chain => exact ⟨c, rfl, h⟩

/-- So do any number of them. -/
theorem applyAll (h : c.Remade) (builders : List CellBuilder) :
    ∃ d, CellBuilder.applyAll builders (.slotted c) = .slotted d ∧ d.Remade := by
  induction builders generalizing c with
  | nil => exact ⟨c, rfl, h⟩
  | cons builder rest ih =>
    obtain ⟨d, hd, hremade⟩ := h.apply builder
    rw [CellBuilder.applyAll, List.foldl_cons, hd]
    exact ih hremade

end SlottedCell.Remade

namespace Cell

variable {cell : Cell}

/-- Slotted cells that are built can be made again, whatever they have been built with. -/
theorem Built.remade (h : cell.Built) : ∀ c, cell.slotted? = some c → c.Remade := by
  have step {cell : Cell} (ih : ∀ c, cell.slotted? = some c → c.Remade) (builder : CellBuilder) :
      ∀ d, (builder.apply cell).slotted? = some d → d.Remade := by
    intro d hd
    rcases cell.exists_slotted_or with ⟨c, rfl⟩ | hcell
    · obtain ⟨d', hd', hremade⟩ := (ih c rfl).apply builder
      rw [hd'] at hd
      cases hd
      exact hremade
    · cases cell with
      | slotted => cases hcell
      | _ => cases builder <;> cases hd
  induction h with
  | slotted _ hmake =>
    rintro _ ⟨⟩
    exact SlottedCell.remade_of_make hmake
  | withId id _ ih => exact step ih (.withId id)
  | withSpan span _ ih => exact step ih (.withSpan span)
  | withValidation chain _ ih => exact step ih (.withValidation chain)
  | withAvailability chain _ ih => exact step ih (.withAvailability chain)
  | _ => rintro _ ⟨⟩

theorem withSpan_withSpan_of_slotted?_eq_none (h : cell.slotted? = none) (span : UInt64) :
    (cell.withSpan span).withSpan cell.span = cell := by
  cases cell with
  | slotted => cases h
  | _ => rfl

/-- Going back to the old span undoes a change of the span, in the slots, too. -/
theorem withSpan_withSpan (h : cell.Built) (span : UInt64) :
    (cell.withSpan span).withSpan cell.span = cell := by
  rcases cell.exists_slotted_or with ⟨c, rfl⟩ | hcell
  · obtain ⟨-, -, hfits⟩ := SlottedCell.remade_iff.1 (h.remade c rfl)
    have slots : ∀ slot ∈ c.slots, (slot.1, (slot.2.withSpan span).withSpan c.span) = slot := by
      intro slot hslot
      have undo := withSpan_withSpan_of_slotted?_eq_none (hfits.flat slot hslot) span
      rw [hfits.even slot hslot] at undo
      rw [undo]
    change Cell.slotted { c with
      slots := withSpanSlots c.span (withSpanSlots span c.slots) } = .slotted c
    rw [withSpanSlots_eq_map, withSpanSlots_eq_map, List.map_map]
    exact congrArg (fun slots => Cell.slotted { c with slots })
      ((List.map_congr_left slots).trans (List.map_id' _))
  · exact withSpan_withSpan_of_slotted?_eq_none hcell span

end Cell

/-- Slotted cells keep their slots fitting under every builder. They are made exactly when the
slots, of which a later one replaces an earlier one of its id, fit: there is one, none has a blank
id, holds a slotted cell or has another span, and the default slot is among them. Whatever builders
a cell that has been made goes through, it stays a slotted cell, of its own parts the same cell can
be made again, and it has a default cell. For cells of all sorts, however they have been built, the
span is what it has been set to, and setting the old one again gives back the same cell. -/
theorem SlottedCell.builders_keep_slots :
    (∀ id span entries defaultSlot c, make id span entries defaultSlot = .ok c ↔
      c = ⟨some id, span, Keyed.ofList entries, defaultSlot⟩ ∧
        Fits span (Keyed.ofList entries) defaultSlot) ∧
    (∀ id span entries defaultSlot c, make id span entries defaultSlot = .ok c → ∀ builders,
      ∃ id' d, CellBuilder.applyAll builders (.slotted c) = .slotted d ∧ d.id = some id' ∧
        make id' d.span d.slots d.defaultSlot = .ok d ∧ d.defaultCell?.isSome = true) ∧
    ∀ cell : Cell, cell.Built → ∀ span, (cell.withSpan span).span = span ∧
      (cell.withSpan span).withSpan cell.span = cell := by
  refine ⟨fun _ _ _ _ _ => make_eq_ok_iff, fun id span entries defaultSlot c h builders => ?_,
    fun cell h span => ⟨cell.span_withSpan span, Cell.withSpan_withSpan h span⟩⟩
  obtain ⟨d, hd, id', hid, hmake⟩ := (remade_of_make h).applyAll builders
  exact ⟨id', d, hd, hid, hmake, (sound_of_make hmake).default⟩

namespace Nested

/-- The slotted cell with another id and twice as wide. -/
def fare : SlottedCell Cell :=
  ⟨some "fare", 2, [("day", .input { dayRate with span := 2 }),
    ("night", .input { nightRate with span := 2 })], "day"⟩

/-- Both slots follow the span of their cell, there and back. -/
theorem builders_keep_slots_nested :
    SlottedCell.make "rate" 1 rate.slots "day" = .ok rate ∧
      CellBuilder.applyAll [.withSpan 2, .withId "fare"] (.slotted rate) = .slotted fare ∧
      SlottedCell.make "fare" 2 fare.slots "day" = .ok fare ∧
      fare.defaultCell?.isSome = true ∧
      ((Cell.slotted rate).withSpan 2).withSpan 1 = .slotted rate := by
  obtain ⟨-, hbuilders, hspan⟩ := SlottedCell.builders_keep_slots
  have hmake : SlottedCell.make "rate" 1 rate.slots "day" = .ok rate := rfl
  have hbuilt : Cell.Built (.slotted rate) := built (⟨rates, 0, none⟩, _) (by simp [cells_report])
  obtain ⟨id, d, hd, hid, hremake, hdefault⟩ :=
    hbuilders "rate" 1 rate.slots "day" rate hmake [.withSpan 2, .withId "fare"]
  cases hd
  cases hid
  exact ⟨hmake, rfl, hremake, hdefault, (hspan _ hbuilt 2).2⟩

end Nested

end ReportCalc
