import ReportCalc.Evaluation.Interruption
import ReportCalc.Journal

/-!
# Evaluations

An evaluation works on a `World`: the journal, to which it adds outcomes, and the state of the
host's own protocols. What it has done to the world stays done when it fails. It is run in one go
(`Eval`), or as a `Task` that may be suspended between its steps. `Recording` is what both offer to
the evaluation of cells.
-/

namespace ReportCalc

variable {σ α β : Type}

/-- What evaluations change: the journal and the state of the host. -/
structure World (σ : Type) where
  journal : Journal
  host : σ

abbrev Eval (σ : Type) := ExceptT Interrupt (StateM (World σ))

instance : Interruptible (Eval σ) where

namespace Eval

/-- The result of an evaluation, and the world that it leaves behind. -/
def run (x : Eval σ α) (w : World σ) : Except Interrupt α × World σ := ExceptT.run x w

@[simp] theorem run_pure (a : α) (w : World σ) : (pure a : Eval σ α).run w = (.ok a, w) := rfl

@[simp] theorem run_fail (e : EvaluationError) (w : World σ) :
    (fail e : Eval σ α).run w = (.error (.error e), w) := rfl

@[simp] theorem run_outOfFuel (w : World σ) :
    (outOfFuel : Eval σ α).run w = (.error .outOfFuel, w) := rfl

@[simp] theorem run_ofExcept (x : Except EvaluationError α) (w : World σ) :
    (ofExcept x : Eval σ α).run w = (x.mapError .error, w) := by cases x <;> rfl

@[simp] theorem run_lift (x : Except EvaluationError α) (w : World σ) :
    (liftM x : Eval σ α).run w = (x.mapError .error, w) := run_ofExcept x w

theorem run_bind (x : Eval σ α) (f : α → Eval σ β) (w : World σ) :
    (x >>= f).run w = match x.run w with
      | (.ok a, w) => (f a).run w
      | (.error i, w) => (.error i, w) := by
  have next : (x >>= f).run w = ExceptT.bindCont f (x.run w).1 (x.run w).2 := rfl
  rw [next]
  rcases x.run w with ⟨_ | _, _⟩ <;> rfl

theorem run_rescue (x : Eval σ α) (handle : EvaluationError → Eval σ α) (w : World σ) :
    (rescue x handle).run w = match x.run w with
      | (.error (.error e), w) => (handle e).run w
      | r => r := by
  simp only [run, ExceptT.run, rescue, tryCatch, tryCatchThe, MonadExceptOf.tryCatch,
    ExceptT.tryCatch, ExceptT.mk, bind, StateT.bind]
  rcases x w with ⟨(_ | _) | _, _⟩ <;> rfl

end Eval

/-! ## Tasks -/

/-- A computation that may be suspended before each of its steps. A step changes the world and goes
on with what it found there. -/
inductive Task (σ α : Type) where
  | done (result : Except Interrupt α)
  | step (change : World σ → World σ) (next : World σ → Task σ α)

namespace Task

def ofEval (x : Eval σ α) : Task σ α := .step (fun w => (x.run w).2) fun w => .done (x.run w).1

def andThen : Task σ α → (α → Task σ β) → Task σ β
  | .done (.ok a), f => f a
  | .done (.error i), _ => .done (.error i)
  | .step change next, f => .step change fun w => (next w).andThen f

def orElse : Task σ α → (Interrupt → Task σ α) → Task σ α
  | .done (.ok a), _ => .done (.ok a)
  | .done (.error i), f => f i
  | .step change next, f => .step change fun w => (next w).orElse f

instance : Interruptible (Task σ) where
  pure a := .done (.ok a)
  bind := andThen
  throw i := .done (.error i)
  tryCatch := orElse

def run : Task σ α → World σ → Except Interrupt α × World σ
  | .done result, w => (result, w)
  | .step change next, w => (next w).run (change w)

end Task

/-! ## Recording -/

/-- A monad for evaluations that keep a journal. -/
class Recording (m : Type → Type) extends Interruptible m where
  /-- The journal as it is now. -/
  journal : m Journal
  /-- Changes the journal. -/
  modifyJournal : (Journal → Journal) → m Unit

instance : Recording (Eval σ) where
  journal := do return (← get).journal
  modifyJournal f := modify fun w => { w with journal := f w.journal }

instance : Recording (Task σ) where
  journal := .step id fun w => .done (.ok w.journal)
  modifyJournal f := .step (fun w => { w with journal := f w.journal }) fun _ => .done (.ok ())

open Recording

@[simp] theorem Eval.run_journal (w : World σ) :
    (journal : Eval σ Journal).run w = (.ok w.journal, w) := rfl

@[simp] theorem Eval.run_modifyJournal (f : Journal → Journal) (w : World σ) :
    (modifyJournal f : Eval σ Unit).run w = (.ok (), { w with journal := f w.journal }) := rfl

end ReportCalc
