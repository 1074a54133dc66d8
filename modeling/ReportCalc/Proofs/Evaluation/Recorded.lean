import ReportCalc.Agent.Recalculation
import ReportCalc.Proofs.Evaluation.Nodes

/-!
# Evaluations that keep a journal

The steps of a pass are written for any monad with a journal. When a correspondence between two of
them is respected by settling a cell (`Correspondence.Settles`), and the evaluations of operations
are related, then whole passes are (`Correspondence.runPass`).
-/

namespace ReportCalc

variable {m n : Type → Type} [Recording m] [Recording n]

namespace Correspondence

/-- Settling a cell respects the correspondence. -/
def Settles (R : Correspondence m n) : Prop :=
  ∀ {phase : Phase} (cx : Context) (target : Resolved) {x : m phase.Outcome} {y : n phase.Outcome},
    R.Rel x y → R.Rel (settle phase.logKind cx target x) (settle phase.logKind cx target y)

theorem settles_of {R : Correspondence m n} (hjournal : R.Rel Recording.journal Recording.journal)
    (hmodify : ∀ f, R.Rel (Recording.modifyJournal f) (Recording.modifyJournal f))
    (hmismatch : ∀ label expected found, R.Admits (.timestampMismatch label expected found)) :
    R.Settles := by
  intro phase cx target x y h
  refine R.bind hjournal fun journal => R.lift (fun e he => ?_) fun settled _ => ?_
  · unfold Context.settled? at he
    split at he
    · cases he
    · split at he
      · cases he
      · split at he <;> cases he
        exact hmismatch _ _ _
  · cases settled with
    | some event => exact R.pure _
    | none => exact R.bind h fun _ => R.bind (hmodify _) fun _ => R.pure _

section Cells
variable {R : Correspondence m n} (hlocal : R.AdmitsLocal)
  {ev : Context → Operation → m Value} {ev' : Context → Operation → n Value} {cx : Context}
  {target : Resolved}
include hlocal

theorem executeCell (h : ∀ op, target.cell.rule? .execution = some op →
      R.Rel (settle .executions cx target (outcomeOf (ev (cx.enter target) op)))
        (settle .executions cx target (outcomeOf (ev' (cx.enter target) op)))) :
    R.Rel (executeCell ev cx target) (executeCell ev' cx target) :=
  hlocal.lift (.operationCell target) fun _ hcell =>
    R.bind (h _ (Resolved.rule?_execution hcell)) fun _ => R.pure _

theorem validateCell (h : ∀ chain, target.cell.rule? .validation = some chain →
      R.Rel (settle .validations cx target (validationOutcome (ev (cx.enter target)) chain))
        (settle .validations cx target (validationOutcome (ev' (cx.enter target)) chain))) :
    R.Rel (validateCell ev cx target) (validateCell ev' cx target) := by
  refine hlocal.lift (.rules target) fun rules hrules => ?_
  cases hchain : rules.validation with
  | none => exact R.pure _
  | some chain => exact h chain ((Resolved.rule?_validation hrules).trans hchain)

theorem checkCell (h : ∀ chain, target.cell.rule? .availability = some chain →
      R.Rel (settle .availabilities cx target (availabilityOutcome (ev (cx.enter target)) chain))
        (settle .availabilities cx target (availabilityOutcome (ev' (cx.enter target)) chain))) :
    R.Rel (checkCell ev cx target) (checkCell ev' cx target) := by
  refine hlocal.lift (.rules target) fun rules hrules => ?_
  cases hchain : rules.availability with
  | none => exact R.pure _
  | some chain => exact h chain ((Resolved.rule?_availability hrules).trans hchain)

variable {phase : Phase} (h : ∀ rule, target.cell.rule? phase = some rule →
  R.Rel (settle phase.logKind cx target (phase.outcome (ev (cx.enter target)) rule))
    (settle phase.logKind cx target (phase.outcome (ev' (cx.enter target)) rule)))
include h

/-- Reading a node is related to itself when settling it is. -/
theorem reads_recorded : R.Reads (.recorded ev) (.recorded ev') cx target phase := by
  cases phase with
  | execution => exact fun _ _ => executeCell hlocal h
  | validation => exact fun _ => validateCell hlocal h
  | availability => exact fun _ => checkCell hlocal h

theorem visit_recorded :
    R.Rel (phase.visit (.recorded ev) cx target) (phase.visit (.recorded ev') cx target) := by
  cases phase with
  | execution => exact R.bind (executeCell hlocal h) fun _ => R.pure _
  | validation => exact R.bind (validateCell hlocal h) fun _ => R.pure _
  | availability => exact R.bind (checkCell hlocal h) fun _ => R.pure _

end Cells

section Evaluations
variable {R : Correspondence m n} (hsettles : R.Settles) (hlocal : R.RecordsLocal)
  {ev : Context → Operation → m Value} {ev' : Context → Operation → n Value} {s : Context → Prop}
  (hev : ∀ cx op, s cx → R.Rel (ev cx op) (ev' cx op))
include hsettles hlocal hev

section Entered
variable {cx : Context} (henter : ∀ target, s (cx.enter target))
include henter

theorem ofTag {op : Operation} (hcx : s cx)
    (herror : ∀ e, op.MayRaise cx e → R.Admits e) :
    R.Rel (BuiltinRule.ofTag op.tag (.recorded ev) cx op)
      (BuiltinRule.ofTag op.tag (.recorded ev') cx op) :=
  rule herror (fun x _ => hev cx x hcx) fun _ _ target _ =>
    reads_recorded hlocal.admits fun _ _ =>
      hsettles cx target (outcome hlocal fun x _ => hev _ x (henter target))

theorem visits (targets : List Resolved) :
    R.Rel (cx.phase.run (.recorded ev) cx targets) (cx.phase.run (.recorded ev') cx targets) :=
  R.forM fun target _ => visit_recorded hlocal.admits fun _ _ =>
    hsettles cx target (outcome hlocal fun x _ => hev _ x (henter target))

end Entered

theorem runPass (report : Report) (time : DateTime) {context : Phase → Context}
    (henter : ∀ phase target, s ((context phase).enter target))
    (hmodify : ∀ f, R.Rel (Recording.modifyJournal f) (Recording.modifyJournal f)) :
    R.Rel (runPass ev report time context) (runPass ev' report time context) :=
  R.bind (hmodify _) fun _ => R.forM fun phase _ =>
    visits hsettles hlocal hev (henter phase) _

end Evaluations

end Correspondence

end ReportCalc
