/-!
# Locators

A locator names a cell, either by section and cell or relative to the cell that is being
evaluated. For a slotted cell it also says which slot is meant.
-/

namespace ReportCalc

/-- What a locator without a slot means for a slotted cell: nothing, or the default slot. -/
inductive SlotSelection where
  | required | defaultSlot
  deriving DecidableEq

/-- The slot that a locator asks for. -/
structure SlotChoice where
  slot : Option String
  selection : SlotSelection
  deriving DecidableEq

/-- No slot is given and one is required. -/
def SlotChoice.none : SlotChoice := ⟨.none, .required⟩

/-- The name of a cell. The first two forms mean the same: one is written in a report's own
operations, the other by callers from outside. -/
inductive Locator where
  | inReport (section_ cell : String) (choice : SlotChoice)
  | standard (section_ cell : String) (choice : SlotChoice)
  | inSection (cell : String) (choice : SlotChoice)
  | self
  deriving DecidableEq

namespace Locator

/-- The slot asked for; the current cell itself is never narrowed. -/
def choice : Locator → SlotChoice
  | .inReport _ _ c | .standard _ _ c | .inSection _ c => c
  | .self => .none

/-- The same locator with another slot choice, which the current cell ignores. -/
def mapChoice (f : SlotChoice → SlotChoice) : Locator → Locator
  | .inReport s c choice => .inReport s c (f choice)
  | .standard s c choice => .standard s c (f choice)
  | .inSection c choice => .inSection c (f choice)
  | .self => .self

def withSlot (slot : String) : Locator → Locator := mapChoice fun c => { c with slot := some slot }

/-- Says what the absence of a slot means. -/
def withSelection (selection : SlotSelection) : Locator → Locator :=
  mapChoice fun c => { c with selection }

/-- Whether the locator only has a meaning while a cell is being evaluated. -/
def isRelative : Locator → Bool
  | .inSection .. | .self => true
  | _ => false

/-- The slot in brackets, if one is given. -/
def slotText (choice : SlotChoice) : String :=
  match choice.slot with
  | some slot => "[" ++ slot ++ "]"
  | none => ""

def display : Locator → String
  | .inReport s c choice | .standard s c choice => s ++ "/" ++ c ++ slotText choice
  | .inSection c choice => "./" ++ c ++ slotText choice
  | .self => "self"

end Locator

end ReportCalc
