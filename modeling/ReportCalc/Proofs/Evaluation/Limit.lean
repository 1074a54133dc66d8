import ReportCalc.Proofs.Evaluation.Plain
import Mathlib.Order.Filter.AtTopBot.Basic

/-!
# Plain evaluation with enough fuel

What the plain evaluation gives with any amount of fuel is one computation that depends on the fuel
(`Plain.limit`). A node gives a result when its plain outcome is that result with enough fuel
(`Plain.Gives`). In a report with reference cycles a node may give no result, but never two
(`Plain.Gives.unique`).
-/

namespace ReportCalc

open Filter

variable {α : Type}

/-! ## Fuel as an argument -/

/-- Computations that depend on the fuel that they are given. -/
abbrev Fueled := ReaderT Nat (Except Interrupt)

instance : Interruptible Fueled where

namespace Fueled

theorem rescue_apply (x : Fueled α) (f : EvaluationError → Fueled α) (fuel : Nat) :
    Eval.rescue x f fuel = Eval.rescue (x fuel) fun e => f e fuel := by
  change tryCatch (x fuel) _ = tryCatch (x fuel) _
  refine congrArg _ (funext fun i => ?_)
  cases i <;> rfl

/-- A computation corresponds to what it is with this much fuel. -/
def given (fuel : Nat) : Correspondence Fueled (Except Interrupt) where
  Rel x y := x fuel = y
  Admits _ := True
  Escapes _ := False
  not_signal := @EvaluationError.isSignal_of_false
  pure _ := rfl
  fail _ := rfl
  bind {_ _ x y f g} hx hf := by
    change (x fuel >>= fun a => f a fuel) = y >>= g
    rw [hx]
    exact congrArg _ (funext hf)
  lift {_ _ x _ _} _ hf := by
    cases x with
    | ok a => exact hf a rfl
    | error e => rfl
  rescue {_ x y f g} hx _ hf := by
    rw [rescue_apply, hx]
    exact congrArg _ (funext fun e => hf e trivial)

theorem given_recordsLocal (fuel : Nat) : (given fuel).RecordsLocal :=
  ⟨fun _ _ => trivial, fun _ => False.elim⟩

end Fueled

namespace Plain

/-! ## The limit -/

/-- One step of the plain evaluation, given the evaluation of operands and of other cells. -/
def step {m : Type → Type} [Interruptible m] (ev : Context → Operation → m Value) (cx : Context)
    (op : Operation) : m Value :=
  if cx.knows (.of op) then op.checked (BuiltinRule.ofTag op.tag (access ev) cx op)
  else Eval.fail (.protocolNotFound op.tag op.kind)

/-- The value of an operation, depending on the fuel. -/
def limit (cx : Context) (op : Operation) : Fueled Value := fun fuel => evaluate fuel cx op

theorem limit_succ (cx : Context) (op : Operation) (fuel : Nat) :
    limit cx op (fuel + 1) = step limit cx op fuel := by
  have given : (Fueled.given fuel).Rel (step limit cx op) (step (evaluate fuel) cx op) := by
    unfold step
    split
    · refine Correspondence.checked (Fueled.given_recordsLocal fuel).admits ?_
      refine Correspondence.rule (fun _ _ => trivial) (fun _ _ => rfl) fun ref _ target _ => ?_
      refine reads_of_outcome (Fueled.given_recordsLocal fuel).admits fun rule _ => ?_
      exact Correspondence.outcome (Fueled.given_recordsLocal fuel) fun _ _ => rfl
    · rfl
  exact given.symm

theorem outcome_limit {base : Context} {target : Resolved} {phase : Phase} (rule : phase.Rule)
    (fuel : Nat) : phase.outcome (limit (base.own target phase)) rule fuel =
      outcome base target phase rule fuel := by
  have given : (Fueled.given fuel).Rel (phase.outcome (limit (base.own target phase)) rule)
      (outcome base target phase rule fuel) :=
    Correspondence.outcome (Fueled.given_recordsLocal fuel) fun _ _ => rfl
  exact given

/-- A step that has a result with enough fuel is a value with enough fuel. -/
theorem eventually_limit {cx : Context} {op : Operation} {r : Except Interrupt Value}
    (h : ∀ᶠ fuel in atTop, step limit cx op fuel = r) :
    ∀ᶠ fuel in atTop, limit cx op fuel = r := by
  obtain ⟨enough, henough⟩ := eventually_atTop.1 h
  refine eventually_atTop.2 ⟨enough + 1, fun fuel hfuel => ?_⟩
  obtain ⟨fuel, rfl⟩ := Nat.exists_eq_add_of_le' (Nat.le_trans (Nat.le_add_left 1 enough) hfuel)
  rw [limit_succ]
  exact henough fuel (Nat.le_of_succ_le_succ hfuel)

/-! ## Results of nodes -/

/-- With enough fuel this is the plain outcome of the rule. -/
def Gives (base : Context) (target : Resolved) (phase : Phase) (rule : phase.Rule)
    (r : Except Interrupt phase.Outcome) : Prop :=
  ∀ᶠ fuel in atTop, outcome base target phase rule fuel = r

theorem Gives.unique {base : Context} {target : Resolved} {phase : Phase} {rule : phase.Rule}
    {r r' : Except Interrupt phase.Outcome} (h : Gives base target phase rule r)
    (h' : Gives base target phase rule r') : r = r' := by
  obtain ⟨fuel, hr, hr'⟩ := (h.and h').exists
  exact hr.symm.trans hr'

end Plain

end ReportCalc
