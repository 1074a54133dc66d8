import ReportCalc.Cell.Basic

/-!
# Construction of slotted cells

A slotted cell has at least one slot, no blank slot ids, no slotted cells inside, slots of its own
span, and a default slot among them. `SlottedCell.make` checks this slot by slot in order of the
ids.
-/

namespace ReportCalc.SlottedCell

/-- Refuses a slot with a blank id, a slotted cell in it or another span. -/
def checkSlot (id : String) (span : UInt64) (slot : String) (cell : Cell) :
    Except ConstructionError Unit :=
  if Text.isBlank slot then .error (.blankSlotId id)
  else if cell.slotted?.isSome then .error (.nestedSlottedCell id slot)
  else if cell.span ≠ span then
    .error (.slotSpanMismatch id slot span.toNat cell.span.toNat)
  else .ok ()

/-- The slotted cell with these slots, of which a later one replaces an earlier one of its id. -/
def make (id : String) (span : UInt64) (slots : List (String × Cell)) (defaultSlot : String) :
    Except ConstructionError (SlottedCell Cell) := do
  let slots := Keyed.ofList slots
  if slots.isEmpty then throw (.emptySlotMap id)
  slots.forM fun (slot, cell) => checkSlot id span slot cell
  if (slots.lookup defaultSlot).isNone then throw (.defaultSlotMissing id defaultSlot)
  return ⟨some id, span, slots, defaultSlot⟩

end ReportCalc.SlottedCell
