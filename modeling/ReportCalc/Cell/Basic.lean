import ReportCalc.Event
import ReportCalc.Keyed
import ReportCalc.Operation.Equality
import ReportCalc.Text.Blank

/-!
# Cells

Constant, input and operation cells are the value cells: they have a value and may have a
validation and an availability chain. Null cells only take up space. A slotted cell is a container
of cells by slot id, one of which is the default; its slots are kept in order of their ids.
-/

namespace ReportCalc

abbrev ValidationRule := ValidationChain Operation

abbrev AvailabilityRule := AvailabilityChain Operation

/-- The rule chains of a value cell. -/
structure CellRules where
  validation : Option ValidationRule
  availability : Option AvailabilityRule
  deriving BEq

def CellRules.none : CellRules := ⟨.none, .none⟩

/-- A cell with a fixed value. -/
structure ConstCell where
  id : Option String
  span : UInt64
  value : Value
  rules : CellRules
  deriving BEq

/-- A cell for a value that the user supplies, with the log of what was supplied. -/
structure InputCell where
  id : Option String
  span : UInt64
  kind : Kind
  value : Option Value
  rules : CellRules
  inputs : EventLog InputChange
  deriving BEq

/-- A cell whose value is computed. -/
structure OperationCell where
  id : Option String
  span : UInt64
  operation : Operation
  rules : CellRules
  deriving BEq

/-- A cell without a value. -/
structure NullCell where
  id : Option String
  span : UInt64
  deriving BEq

/-- A container of cells by slot id. -/
structure SlottedCell (γ : Type) where
  id : Option String
  span : UInt64
  slots : List (String × γ)
  defaultSlot : String

def SlottedCell.slot? {γ : Type} (c : SlottedCell γ) (slot : String) : Option γ :=
  c.slots.lookup slot

def SlottedCell.defaultCell? {γ : Type} (c : SlottedCell γ) : Option γ := c.slot? c.defaultSlot

/-- A cell of a report. -/
inductive Cell where
  | const (c : ConstCell)
  | input (c : InputCell)
  | operation (c : OperationCell)
  | null (c : NullCell)
  | slotted (c : SlottedCell Cell)

namespace Cell

/-! ## Equality -/

mutual

/-- Equality of cells, input logs included. -/
def beq : Cell → Cell → Bool
  | .const a, .const b => a == b
  | .input a, .input b => a == b
  | .operation a, .operation b => a == b
  | .null a, .null b => a == b
  | .slotted ⟨i, n, xs, d⟩, .slotted ⟨j, m, ys, e⟩ =>
    i == j && n == m && beqSlots xs ys && d == e
  | _, _ => false

/-- Equality of slots, ids and cells. -/
def beqSlots : List (String × Cell) → List (String × Cell) → Bool
  | [], [] => true
  | (s, a) :: as, (t, b) :: bs => s == t && beq a b && beqSlots as bs
  | _, _ => false

end

instance : BEq Cell := ⟨beq⟩

/-! ## New cells -/

def ofValue (value : Value) : Cell := .const ⟨none, 1, value, .none⟩

def ofInput (kind : Kind) : Cell := .input ⟨none, 1, kind, none, .none, .empty⟩

def ofOperation (operation : Operation) : Cell := .operation ⟨none, 1, operation, .none⟩

def ofSpan (span : UInt64) : Cell := .null ⟨none, span⟩

/-! ## Reading -/

def id : Cell → Option String
  | .const c => c.id
  | .input c => c.id
  | .operation c => c.id
  | .null c => c.id
  | .slotted c => c.id

def label (c : Cell) : String := c.id.getD "<anonymous>"

def span : Cell → UInt64
  | .const c => c.span
  | .input c => c.span
  | .operation c => c.span
  | .null c => c.span
  | .slotted c => c.span

def sortName : Cell → String
  | .const _ => "const"
  | .input _ => "input"
  | .operation _ => "operation"
  | .null _ => "null"
  | .slotted _ => "slotted"

def rules? : Cell → Option CellRules
  | .const c => some c.rules
  | .input c => some c.rules
  | .operation c => some c.rules
  | .null _ | .slotted _ => none

/-- The validation chain, if the cell has one. -/
def validation? (c : Cell) : Option ValidationRule := c.rules?.bind (·.validation)

/-- The availability chain, if the cell has one. -/
def availability? (c : Cell) : Option AvailabilityRule := c.rules?.bind (·.availability)

/-- The input cell, if it is one. -/
def input? : Cell → Option InputCell
  | .input c => some c
  | _ => none

/-- The operation cell, if it is one. -/
def operation? : Cell → Option OperationCell
  | .operation c => some c
  | _ => none

/-- The slotted cell, if it is one. -/
def slotted? : Cell → Option (SlottedCell Cell)
  | .slotted c => some c
  | _ => none

/-! ## Changing -/

def withId (id : String) : Cell → Cell
  | .const c => .const { c with id }
  | .input c => .input { c with id }
  | .operation c => .operation { c with id }
  | .null c => .null { c with id }
  | .slotted c => .slotted { c with id }

mutual

/-- The same cell with another span, which the slots of a slotted cell follow. -/
def withSpan (span : UInt64) : Cell → Cell
  | .const c => .const { c with span }
  | .input c => .input { c with span }
  | .operation c => .operation { c with span }
  | .null c => .null { c with span }
  | .slotted ⟨id, _, slots, defaultSlot⟩ =>
    .slotted ⟨id, span, withSpanSlots span slots, defaultSlot⟩

def withSpanSlots (span : UInt64) : List (String × Cell) → List (String × Cell)
  | [] => []
  | (slot, cell) :: rest => (slot, withSpan span cell) :: withSpanSlots span rest

end

/-- The same cell with other rules; null and slotted cells have none and stay as they are. -/
def mapRules (f : CellRules → CellRules) : Cell → Cell
  | .const c => .const { c with rules := f c.rules }
  | .input c => .input { c with rules := f c.rules }
  | .operation c => .operation { c with rules := f c.rules }
  | c => c

def withValidation (chain : ValidationRule) : Cell → Cell :=
  mapRules fun rules => { rules with validation := some chain }

def withAvailability (chain : AvailabilityRule) : Cell → Cell :=
  mapRules fun rules => { rules with availability := some chain }

end Cell

/-! ## Changing what a cell holds -/

/-- The same cell with another value; a constant has no declared kind, so any value is legal. -/
def ConstCell.withValue (c : ConstCell) (value : Value) : ConstCell := { c with value }

def OperationCell.withOperation (c : OperationCell) (operation : Operation) : OperationCell :=
  { c with operation }

namespace InputCell

/-- Refuses a value that the declared kind does not admit. -/
def check (c : InputCell) (value : Option Value) : Except ConstructionError Unit :=
  match value with
  | some v => if c.kind.admits v then .ok () else .error (.kindMismatch c.kind v.typeName)
  | none => .ok ()

def withValue (c : InputCell) (value : Option Value) : Except ConstructionError InputCell := do
  c.check value
  return { c with value }

def setValue (c : InputCell) (value : Option Value) (time : DateTime) :
    Except ConstructionError InputCell := do
  c.check value
  return { c with value, inputs := c.inputs.push ⟨time, .applied value⟩ }

def clearValue (c : InputCell) (reason : String) (time : DateTime) : InputCell :=
  { c with value := none, inputs := c.inputs.push ⟨time, .cleared reason⟩ }

end InputCell

end ReportCalc
