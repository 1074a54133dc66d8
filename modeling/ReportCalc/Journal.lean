import ReportCalc.Report.Index

/-!
# The journal of a report

The journal holds what recalculations have recorded on the cells of a report, in the order in which
it was recorded. The log of a cell is what of it concerns the cell: its executions, its validations
or its availability checks. The values of inputs and their logs belong to the report itself.
-/

namespace ReportCalc

/-- Something that is recorded on a cell. -/
inductive CellRecord where
  | execution (e : ExecutionEvent)
  | validation (e : ValidationEvent)
  | availability (e : AvailabilityEvent)

namespace CellRecord

/-- The phase whose outcomes go into the same log. -/
def phase : CellRecord → Phase
  | .execution _ => .execution
  | .validation _ => .validation
  | .availability _ => .availability

end CellRecord

/-- One of the three sorts of logs: the phase whose outcomes it holds, and its events among the
records. -/
structure LogKind (α : Type) where
  phase : Phase
  record : Event α → CellRecord
  event? : CellRecord → Option (Event α)
  event?_record : ∀ e, event? (record e) = some e
  phase_record : ∀ e, (record e).phase = phase
  event?_eq_none : ∀ {x : CellRecord}, x.phase ≠ phase → event? x = none

namespace LogKind

def executions : LogKind ExecutionOutcome where
  phase := .execution
  record := .execution
  event?
    | .execution e => some e
    | _ => none
  event?_record _ := rfl
  phase_record _ := rfl
  event?_eq_none {x} h := by cases x <;> simp_all [CellRecord.phase]

def validations : LogKind ValidationOutcome where
  phase := .validation
  record := .validation
  event?
    | .validation e => some e
    | _ => none
  event?_record _ := rfl
  phase_record _ := rfl
  event?_eq_none {x} h := by cases x <;> simp_all [CellRecord.phase]

def availabilities : LogKind AvailabilityOutcome where
  phase := .availability
  record := .availability
  event?
    | .availability e => some e
    | _ => none
  event?_record _ := rfl
  phase_record _ := rfl
  event?_eq_none {x} h := by cases x <;> simp_all [CellRecord.phase]

end LogKind

/-- A cell together with one of the phases: the place of a log. -/
structure Node where
  address : CellAddress
  phase : Phase
  deriving DecidableEq

/-- A line of a journal: a record and the cell that it is about. -/
structure JournalEntry where
  address : CellAddress
  record : CellRecord

def JournalEntry.node (e : JournalEntry) : Node := ⟨e.address, e.record.phase⟩

/-- What recalculations have recorded, the oldest entry first. -/
structure Journal where
  entries : List JournalEntry

namespace Journal

def empty : Journal := ⟨[]⟩

/-! ## Logs -/

def log {α : Type} (j : Journal) (kind : LogKind α) (a : CellAddress) : EventLog α :=
  ⟨j.entries.filterMap fun e => if e.address = a then kind.event? e.record else none⟩

def executions (j : Journal) : CellAddress → EventLog ExecutionOutcome := j.log .executions

def validations (j : Journal) : CellAddress → EventLog ValidationOutcome := j.log .validations

def availabilities (j : Journal) : CellAddress → EventLog AvailabilityOutcome :=
  j.log .availabilities

/-! ## Recording -/

def append (j : Journal) (e : JournalEntry) : Journal := ⟨j.entries ++ [e]⟩

/-- Drops the log of the entry, and starts it anew with the entry. -/
def restart (j : Journal) (e : JournalEntry) : Journal :=
  append ⟨j.entries.filter fun d => d.node ≠ e.node⟩ e

def push {α : Type} (j : Journal) (kind : LogKind α) (a : CellAddress) (e : Event α) : Journal :=
  j.append ⟨a, kind.record e⟩

def pushExecution (j : Journal) (a : CellAddress) (e : ExecutionEvent) : Journal :=
  j.push .executions a e

def pushValidation (j : Journal) (a : CellAddress) (e : ValidationEvent) : Journal :=
  j.push .validations a e

def pushAvailability (j : Journal) (a : CellAddress) (e : AvailabilityEvent) : Journal :=
  j.push .availabilities a e

/-- The entries that mark the start of a pass in the logs of a cell: only operation cells have
executions, and only value cells have the other logs. -/
def markers (reason : String) (time : DateTime) (a : CellAddress) (cell : Cell) :
    List JournalEntry :=
  (if cell.operation?.isSome then [⟨a, .execution ⟨time, .cleared reason⟩⟩] else []) ++
    if cell.rules?.isSome then
      [⟨a, .validation ⟨time, .cleared reason⟩⟩, ⟨a, .availability ⟨time, .cleared reason⟩⟩]
    else []

/-- Starts the logs of every cell of a report anew. -/
def clearLogs (j : Journal) (r : Report) (reason : String) (time : DateTime) : Journal :=
  (r.cells.flatMap fun (a, cell) => markers reason time a cell).foldl restart j

/-! ## What the last entries say -/

def lastOutcome? (j : Journal) (a : CellAddress) : Option ExecutionOutcome :=
  (j.executions a).last?.map (·.content)

/-- The validity of a cell; without a validation chain it is valid. -/
def validationState (j : Journal) (a : CellAddress) (cell : Cell) : ValidationState :=
  if cell.validation?.isNone then .valid
  else
    match (j.validations a).last? with
    | some e => e.content.state
    | none => .unknown

/-- The availability of a cell; without an availability chain it is enabled. -/
def availabilityState (j : Journal) (a : CellAddress) (cell : Cell) : AvailabilityState :=
  if cell.availability?.isNone then .enabled
  else
    match (j.availabilities a).last? with
    | some e => e.content.state
    | none => .unknown

/-- Whether two journals hold the same events for a cell. Only operation cells have executions, and
only value cells have the other logs. -/
def sameOn (j k : Journal) (a : CellAddress) (cell : Cell) : Bool :=
  (cell.operation?.isNone || j.executions a == k.executions a) &&
    (cell.rules?.isNone ||
      j.validations a == k.validations a && j.availabilities a == k.availabilities a)

end Journal

end ReportCalc
