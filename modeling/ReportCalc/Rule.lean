import ReportCalc.ConstructionError
import ReportCalc.Verdict

/-!
# Rule chains

A chain is a non-empty list of steps. Each step has a condition, and for either outcome an action:
go on with the next step, or stop with a verdict. If every step goes on, the verdict at the end of
the chain applies. The chains are generic in the type of their conditions and messages, which for
reports is the type of operations.
-/

namespace ReportCalc

variable {ω : Type}

/-- What a validation step does with one outcome of its condition. A stop without a message falls
back to the message of its condition, if the condition carries one. -/
inductive ValidationAction (ω : Type) where
  | next
  | stop (verdict : Verdict) (message : Option ω)

/-- A step of a validation chain. The condition of `check` is a truth value; the condition of
`checkWithMessage` brings its own explanation. -/
inductive ValidationStep (ω : Type) where
  | check (condition : ω) (onTrue onFalse : ValidationAction ω)
  | checkWithMessage (condition : ω) (onTrue onFalse : ValidationAction ω)

namespace ValidationStep

/-- Goes on when the condition holds and stops as invalid otherwise. -/
def require (condition : ω) (message : Option ω) : ValidationStep ω :=
  .check condition .next (.stop .invalid message)

def condition : ValidationStep ω → ω
  | .check c _ _ | .checkWithMessage c _ _ => c

def action (holds : Bool) : ValidationStep ω → ValidationAction ω
  | .check _ onTrue onFalse | .checkWithMessage _ onTrue onFalse =>
    if holds then onTrue else onFalse

end ValidationStep

/-- A non-empty list of validation steps with the verdict that applies after all of them. -/
structure ValidationChain (ω : Type) where
  first : ValidationStep ω
  rest : List (ValidationStep ω)
  endVerdict : Verdict
  endMessage : Option ω

namespace ValidationChain

def steps (c : ValidationChain ω) : List (ValidationStep ω) := c.first :: c.rest

/-- The chain of the given steps, of which there must be one. -/
def ofSteps (steps : List (ValidationStep ω)) (endVerdict : Verdict) (endMessage : Option ω) :
    Except ConstructionError (ValidationChain ω) :=
  match steps with
  | [] => .error (.emptyChain .validation)
  | first :: rest => .ok ⟨first, rest, endVerdict, endMessage⟩

end ValidationChain

/-- What an availability step does with one outcome of its condition. -/
inductive AvailabilityAction where
  | next
  | stop (availability : Availability)
  deriving DecidableEq

/-- A step of an availability chain; its condition is a truth value. -/
structure AvailabilityStep (ω : Type) where
  condition : ω
  onTrue : AvailabilityAction
  onFalse : AvailabilityAction

namespace AvailabilityStep

/-- Disables the cell when the condition fails and goes on otherwise. -/
def enabledWhen (condition : ω) : AvailabilityStep ω := ⟨condition, .next, .stop .disabled⟩

def action (holds : Bool) (s : AvailabilityStep ω) : AvailabilityAction :=
  if holds then s.onTrue else s.onFalse

end AvailabilityStep

/-- A non-empty list of availability steps with the verdict that applies after all of them. -/
structure AvailabilityChain (ω : Type) where
  first : AvailabilityStep ω
  rest : List (AvailabilityStep ω)
  endVerdict : Availability

namespace AvailabilityChain

def steps (c : AvailabilityChain ω) : List (AvailabilityStep ω) := c.first :: c.rest

/-- The chain of the given steps, of which there must be one. -/
def ofSteps (steps : List (AvailabilityStep ω)) (endVerdict : Availability) :
    Except ConstructionError (AvailabilityChain ω) :=
  match steps with
  | [] => .error (.emptyChain .availability)
  | first :: rest => .ok ⟨first, rest, endVerdict⟩

end AvailabilityChain

end ReportCalc
