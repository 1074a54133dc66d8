import ReportCalc.Kind

/-!
# Construction errors

What can be wrong with the parts of a report while it is being built.
-/

namespace ReportCalc

/-- The two kinds of rule chain. -/
inductive ChainSort where
  | validation | availability
  deriving DecidableEq

def ChainSort.display : ChainSort → String
  | .validation => "validation"
  | .availability => "availability check"

/-- What carries an id that is unique in the whole report. -/
inductive IdCategory where
  | section | column | row | cell
  deriving DecidableEq

def IdCategory.display : IdCategory → String
  | .section => "section"
  | .column => "column"
  | .row => "row"
  | .cell => "cell"

/-- The causes for which a part of a report is refused. -/
inductive ConstructionError where
  | emptySlotMap (cell : String)
  | blankSlotId (cell : String)
  | nestedSlottedCell (cell slot : String)
  | slotSpanMismatch (cell slot : String) (expected actual : Nat)
  | defaultSlotMissing (cell defaultSlot : String)
  | emptyChain (chain : ChainSort)
  | kindMismatch (expected : Kind) (actual : String)
  | noSections (report : String)
  | duplicateId (category : IdCategory) (id : String)
  | rowSpanMismatch (row : String) (expected actual : Nat)
  deriving DecidableEq

def countText (n : Nat) : String := String.ofList (Nat.toDigits 10 n)

def ConstructionError.message : ConstructionError → String
  | .emptySlotMap cell => "slotted cell " ++ cell ++ " has no slots"
  | .blankSlotId cell => "slotted cell " ++ cell ++ " has a blank slot id"
  | .nestedSlottedCell cell slot =>
    "slot " ++ slot ++ " of cell " ++ cell ++ " holds another slotted cell"
  | .slotSpanMismatch cell slot expected actual =>
    "slot " ++ slot ++ " of cell " ++ cell ++ " spans " ++ countText actual ++
      " columns, expected " ++ countText expected
  | .defaultSlotMissing cell defaultSlot =>
    "default slot " ++ defaultSlot ++ " is not a slot of cell " ++ cell
  | .emptyChain chain => chain.display ++ " chain must have at least one step"
  | .kindMismatch expected actual =>
    "value of type " ++ actual ++ " is not a legal " ++ expected.display
  | .noSections report => "report " ++ report ++ " has no sections"
  | .duplicateId category id => "duplicate " ++ category.display ++ " id: " ++ id
  | .rowSpanMismatch row expected actual =>
    "row " ++ row ++ " spans " ++ countText actual ++ " columns, table has " ++ countText expected

end ReportCalc
