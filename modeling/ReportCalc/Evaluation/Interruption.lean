import ReportCalc.Evaluation.Error

/-!
# Interruptions

An evaluation may end without a value: with an error, or because it was given too little fuel. The
rules of the operations are written for any monad in which that can happen (`Interruptible`), so
that the evaluation which keeps a journal and one without any state share them.
-/

namespace ReportCalc

/-- Why an evaluation ends without a value: an error, or fuel that does not suffice. -/
inductive Interrupt where
  | error (e : EvaluationError)
  | outOfFuel

/-- A monad whose computations can be interrupted, and can catch the interruption of others. -/
class Interruptible (m : Type → Type) extends Monad m, MonadExcept Interrupt m

instance : Interruptible (Except Interrupt) where

namespace Eval

variable {m : Type → Type} [Interruptible m] {α β : Type}

def fail (e : EvaluationError) : m α := throw (.error e)

/-- Gives up. -/
def outOfFuel : m α := throw .outOfFuel

/-- A result that is there already. -/
def ofExcept : Except EvaluationError α → m α
  | .ok a => pure a
  | .error e => fail e

instance : MonadLift (Except EvaluationError) m := ⟨ofExcept⟩

/-- Goes on with `handle` after an error; running out of fuel is not one. -/
def rescue (x : m α) (handle : EvaluationError → m α) : m α :=
  tryCatch x fun
    | .error e => handle e
    | .outOfFuel => outOfFuel

def attempt (x : m α) : m (Except EvaluationError α) :=
  rescue (do return .ok (← x)) fun e => return .error e

/-- The result of `x`, or what becomes of its error; fatal errors are returned. -/
def completedOr (completed : α → β) (failed : String → β) (x : m α) : m β :=
  rescue (do return completed (← x)) fun e =>
    if e.isFatal then fail e else return failed e.message

end Eval

end ReportCalc
