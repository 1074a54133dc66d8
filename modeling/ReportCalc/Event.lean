import ReportCalc.Value.Basic

/-!
# Events and their logs

What happens to a cell is recorded in logs: executions, validations, availability checks and
inputs. A log only grows at its end, except that a recalculation starts each of the first three
anew with a single `cleared` entry; whether a cell is settled in a pass is read off the last entry
and its time.
-/

namespace ReportCalc

/-- Something that happened at a time. -/
structure Event (α : Type) where
  time : DateTime
  content : α
  deriving BEq

/-- Events in the order in which they were recorded. -/
structure EventLog (α : Type) where
  events : List (Event α)
  deriving BEq

namespace EventLog

variable {α : Type}

def empty : EventLog α := ⟨[]⟩

def push (log : EventLog α) (e : Event α) : EventLog α := ⟨log.events ++ [e]⟩

/-- The log that holds this event only. -/
def single (e : Event α) : EventLog α := ⟨[e]⟩

/-- Drops all events and starts anew. -/
def reset (_ : EventLog α) (e : Event α) : EventLog α := single e

def last? (log : EventLog α) : Option (Event α) := log.events.getLast?

def size (log : EventLog α) : Nat := log.events.length

def isEmpty (log : EventLog α) : Bool := log.events.isEmpty

@[simp] theorem last?_push (log : EventLog α) (e : Event α) : (log.push e).last? = some e := by
  simp [push, last?]

@[simp] theorem size_push (log : EventLog α) (e : Event α) : (log.push e).size = log.size + 1 := by
  simp [push, size]

end EventLog

/-- Content of an event that a pass may put into a log: a marker or a result. -/
class PassContent (α : Type) where
  /-- The marker with which a pass begins. -/
  cleared : String → α
  /-- Whether this is such a marker. -/
  isCleared : α → Bool
  isCleared_cleared : ∀ reason, isCleared (cleared reason) = true

/-! ## Executions -/

/-- How the execution of an operation cell ended. -/
inductive ExecutionOutcome where
  | cleared (reason : String)
  | succeeded (value : Value)
  | aborted (message : Option String)
  | failed (message : String)
  | notApplicable (message : Option String)
  | valueMissing (message : String)
  | cellNotFound (message : String)
  deriving BEq

namespace ExecutionOutcome

instance : PassContent ExecutionOutcome where
  cleared := .cleared
  isCleared
    | .cleared _ => true
    | _ => false
  isCleared_cleared _ := rfl

def value? : ExecutionOutcome → Option Value
  | .succeeded v => some v
  | _ => none

/-- The wording of a signal: its name, and after a colon its message. -/
def signalText (name : String) : Option String → String
  | some m => name ++ ": " ++ m
  | none => name

def display : ExecutionOutcome → String
  | .cleared reason => "cleared (" ++ reason ++ ")"
  | .succeeded v => "succeeded: " ++ v.display
  | .aborted m => signalText "aborted" m
  | .failed m => "failed: " ++ m
  | .notApplicable m => signalText "not applicable" m
  | .valueMissing m => "value missing: " ++ m
  | .cellNotFound m => "cell not found: " ++ m

end ExecutionOutcome

abbrev ExecutionEvent := Event ExecutionOutcome

/-! ## Validations -/

/-- How the validation of a cell ended. -/
inductive ValidationOutcome where
  | cleared (reason : String)
  | completed (v : Validity)
  | failed (message : String)
  deriving BEq

instance : PassContent ValidationOutcome where
  cleared := .cleared
  isCleared
    | .cleared _ => true
    | _ => false
  isCleared_cleared _ := rfl

/-- The validity of a cell as its last validation event shows it. -/
inductive ValidationState where
  | unknown | valid | invalid | notApplicable | aborted | failed
  deriving DecidableEq

namespace ValidationOutcome

def state : ValidationOutcome → ValidationState
  | .cleared _ => .unknown
  | .failed _ => .failed
  | .completed v =>
    match v.verdict with
    | .valid => .valid
    | .invalid => .invalid
    | .notApplicable => .notApplicable
    | .aborted => .aborted

def message? : ValidationOutcome → Option String
  | .cleared _ => none
  | .completed v => v.message
  | .failed m => some m

end ValidationOutcome

abbrev ValidationEvent := Event ValidationOutcome

/-! ## Availability checks -/

/-- How the availability check of a cell ended. -/
inductive AvailabilityOutcome where
  | cleared (reason : String)
  | completed (a : Availability)
  | failed (message : String)
  deriving BEq

instance : PassContent AvailabilityOutcome where
  cleared := .cleared
  isCleared
    | .cleared _ => true
    | _ => false
  isCleared_cleared _ := rfl

/-- The availability of a cell as its last check shows it; a failed check leaves it unknown. -/
inductive AvailabilityState where
  | unknown | enabled | disabled
  deriving DecidableEq

def AvailabilityOutcome.state : AvailabilityOutcome → AvailabilityState
  | .completed .enabled => .enabled
  | .completed .disabled => .disabled
  | .cleared _ | .failed _ => .unknown

abbrev AvailabilityEvent := Event AvailabilityOutcome

/-! ## Inputs -/

/-- What was done to the value of an input cell. -/
inductive InputChange where
  | applied (value : Option Value)
  | cleared (reason : String)
  deriving BEq

abbrev InputEvent := Event InputChange

end ReportCalc
