import ReportCalc.Cell.Slotted

/-!
# Tree tables

A table has columns and three bands of rows. A row may nest child rows and carry two summary rows,
one shown while the children are expanded and one while they are collapsed. Every row, at every
depth, spans exactly the columns of the table; spans add up in 64-bit words, and a row of which the
sum does not fit stops the construction.
-/

namespace ReportCalc

/-- A column of a table. -/
structure Column where
  id : String
  title : String
  deriving DecidableEq

/-- A row with its nested rows. -/
structure Row where
  id : String
  cells : List Cell
  children : List Row
  expanded : Option Row
  collapsed : Option Row

namespace Row

/-- The sum of two spans, if it fits a word. -/
def addSpan? (total span : UInt64) : Option UInt64 :=
  if total.toNat + span.toNat < UInt64.size then some (total + span) else none

/-- The columns that the cells of the row take up, if their sum fits a word. -/
def span? (row : Row) : Option UInt64 :=
  row.cells.foldlM (fun total cell => addSpan? total cell.span) 0

mutual

/-- The row followed by every nested row, depth first: children, then the summary for the expanded
and the one for the collapsed state. -/
def descendants : Row → List Row
  | ⟨id, cells, children, expanded, collapsed⟩ =>
    ⟨id, cells, children, expanded, collapsed⟩ :: (descendantsOfList children ++
      descendantsOfOption expanded ++ descendantsOfOption collapsed)

/-- The descendants of rows, one after the other. -/
def descendantsOfList : List Row → List Row
  | [] => []
  | row :: rest => descendants row ++ descendantsOfList rest

def descendantsOfOption : Option Row → List Row
  | none => []
  | some row => descendants row

end

mutual

/-- Equality of rows, nested rows included. -/
def beq : Row → Row → Bool
  | ⟨i, xs, cs, e, c⟩, ⟨j, ys, ds, f, d⟩ =>
    i == j && xs == ys && beqList cs ds && beqOption e f && beqOption c d

def beqList : List Row → List Row → Bool
  | [], [] => true
  | a :: as, b :: bs => beq a b && beqList as bs
  | _, _ => false

def beqOption : Option Row → Option Row → Bool
  | none, none => true
  | some a, some b => beq a b
  | _, _ => false

end

instance : BEq Row := ⟨beq⟩

end Row

/-- The bands of a table. -/
inductive Band where
  | header | body | footer
  deriving DecidableEq

def Band.all : List Band := [.header, .body, .footer]

/-- Columns and the rows of the three bands. -/
structure Table where
  columns : List Column
  header : List Row
  body : List Row
  footer : List Row
  deriving BEq

namespace Table

def band (t : Table) : Band → List Row
  | .header => t.header
  | .body => t.body
  | .footer => t.footer

/-- Every row in order: header, body, footer, each depth first. -/
def allRows (t : Table) : List Row := Band.all.flatMap fun b => (t.band b).flatMap Row.descendants

/-- How the construction of a table stops when no table is made: the table is refused, or the sum of
spans of a row does not fit a word. The latter is no error that is handed back: the program ends. -/
inductive Failure where
  | refused (e : ConstructionError)
  | overflow
  deriving DecidableEq

def checkRow (columns : Nat) (row : Row) : Except Failure Unit :=
  match row.span? with
  | none => .error .overflow
  | some span =>
    if span.toNat = columns then .ok ()
    else .error (.refused (.rowSpanMismatch row.id columns span.toNat))

def make (columns : List Column) (header body footer : List Row) : Except Failure Table := do
  let table : Table := ⟨columns, header, body, footer⟩
  table.allRows.forM (checkRow columns.length)
  return table

end Table

end ReportCalc
