import ReportCalc.Proofs.Evaluation.Settling
import ReportCalc.Proofs.Evaluation.Suspension
import ReportCalc.Proofs.Operation.Typing

/-!
# Looking before reading

Whether a cell has a value, and what its value is as one of some kind, are asked for separately.
Both settle the cell in the same way and then look at what it holds (`Resolved.held`). So a cell
that was found to have a value can be read as a value of every kind that admits it, and otherwise
reading says that there is none (`hasValue_guards_cellValue`).
-/

namespace ReportCalc

variable {σ : Type}

/-! ## What a cell holds -/

/-- The value that a cell holds, if there is one: constants and inputs have their own, and an
operation cell has the one of its last execution, if that was a success. -/
def Resolved.held (target : Resolved) (j : Journal) : Except EvaluationError (Option Value) :=
  match target.cell with
  | .const c => .ok (some c.value)
  | .input c => .ok c.value
  | .operation _ => .ok ((j.lastOutcome? target.address).bind (·.value?))
  | _ => .error (target.mismatch "value")

theorem Resolved.eq_mismatch_of_held {target : Resolved} {j : Journal} {e : EvaluationError}
    (h : target.held j = .error e) : e = target.mismatch "value" := by
  unfold held at h
  split at h <;> cases h
  rfl

/-- Whether a value is held that is not the absent one. -/
def findsValue : Except EvaluationError (Option Value) → Bool
  | .ok (some v) => !v.isNull
  | _ => false

theorem exists_of_findsValue {held : Except EvaluationError (Option Value)}
    (h : findsValue held = true) : ∃ v, held = .ok (some v) ∧ v.isNull = false := by
  unfold findsValue at h
  split at h
  · next v => exact ⟨v, rfl, by simpa using h⟩
  · cases h

theorem eq_null_of_findsValue {v : Value} (h : findsValue (.ok (some v)) = false) : v = .null :=
  Value.isNull_iff.1 (by simpa [findsValue] using h)

/-- What reading the value of the cell that is meant as a value of some kind comes to, given what
the cell holds. -/
inductive ReadsValue (kind : Kind) (meant : Except EvaluationError Resolved) :
    Except EvaluationError (Option Value) → Except Interrupt Value → Prop
  | admitted {v : Value} (h : kind.admits v = true) : ReadsValue kind meant (.ok (some v)) (.ok v)
  | mistyped {target : Resolved} {v : Value} (htarget : meant = .ok target)
      (h : kind.admits v = false) : ReadsValue kind meant (.ok (some v))
        (.error (.error (.typeMismatch kind v.typeName ("value of cell " ++ target.label))))
  | absent {target : Resolved} (htarget : meant = .ok target)
      (h : target.cell.input?.isSome = true ∧ kind.isOptional = true) :
      ReadsValue kind meant (.ok none) (.ok .null)
  | missing {target : Resolved} {reason : String} (htarget : meant = .ok target)
      (h : ¬ (target.cell.input?.isSome = true ∧ kind.isOptional = true)) :
      ReadsValue kind meant (.ok none) (.error (.error (.valueMissing target.label reason)))
  | error {e : EvaluationError} : ReadsValue kind meant (.error e) (.error (.error e))

theorem ReadsValue.of_check {kind : Kind} {target : Resolved} (v : Value) :
    ReadsValue kind (.ok target) (.ok (some v))
      ((kind.check v ("value of cell " ++ target.label)).mapError .error) := by
  unfold Kind.check
  split
  · next h => exact .admitted h
  · next h => exact .mistyped rfl (by simpa using h)

/-! ## Looking and reading -/

namespace Task

theorem run_liftM {α : Type} (x : Except EvaluationError α) (w : World σ) :
    (liftM x : Task σ α).run w = (x.mapError .error, w) := by
  cases x <;> rfl

variable {cx : Context} {target : Resolved} {w w' : World σ}

/-- Settling a cell leaves its event at the end of the log. -/
theorem last?_log_of_settle {α : Type} [PassContent α] {kind : LogKind α} {x : Task σ α}
    {event : Event α} (h : (settle kind cx target x).run w = (.ok event, w')) :
    (w'.journal.log kind target.address).last? = some event := by
  rw [run_settle] at h
  split at h
  · cases h
  · next hsettled =>
    cases h
    unfold Context.settled? at hsettled
    split at hsettled
    · cases hsettled
    · next hlast =>
      rw [hlast]
      split at hsettled
      · cases hsettled
      · split at hsettled <;> cases hsettled
        rfl
  · split at h <;> cases h
    rw [Journal.log_push, EventLog.last?_push]

theorem lastOutcome?_of_executeCell {ev : Context → Operation → Task σ Value} {c : OperationCell}
    {outcome : ExecutionOutcome} (hc : target.operationCell = .ok c)
    (h : (executeCell ev cx target).run w = (.ok outcome, w')) :
    w'.journal.lastOutcome? target.address = some outcome := by
  rw [executeCell_eq hc] at h
  obtain ⟨event, w₁, hsettle, hevent⟩ := exists_of_run_bind h
  cases hevent
  exact congrArg (Option.map (·.content)) (last?_log_of_settle hsettle)

/-- Looking for the value of a cell and reading it both lead to the second world, and go by what the
cell holds there. -/
structure Finds (access : Access (Task σ)) (cx : Context) (target : Resolved) (w w' : World σ) :
    Prop where
  found : (findValue access cx target).run w = (.ok (findsValue (target.held w'.journal)), w')
  read (kind : Kind) : ∃ r, (readValue access cx kind target).run w = (r, w') ∧
    ReadsValue kind (.ok target) (target.held w'.journal) r

/-- Cells that are not executed are looked at and read as they are. -/
theorem Finds.stored {access : Access (Task σ)} {e : EvaluationError}
    (hcell : target.operationCell = .error e) : Finds access cx target w w where
  found := by
    rw [findValue, hcell]
    obtain ⟨address, cell⟩ := target
    cases cell with
    | input c => cases hvalue : c.value <;> simp [storedHasValue, Resolved.held, findsValue, hvalue]
    | operation c => cases hcell
    | _ => rfl
  read kind := by
    simp only [readValue, hcell, run_bind, run_liftM]
    obtain ⟨address, cell⟩ := target
    cases cell with
    | const c => exact ⟨_, rfl, .of_check c.value⟩
    | input c =>
      simp only [storedValue, Resolved.held]
      cases c.value with
      | some v => exact ⟨_, rfl, .of_check v⟩
      | none =>
        cases hkind : kind.isOptional with
        | false => exact ⟨_, rfl, .missing rfl (by simp [hkind])⟩
        | true =>
          refine ⟨.ok .null, ?_, .absent rfl ⟨rfl, hkind⟩⟩
          -- the check lets the absent value pass that is read for a missing input
          simp [Kind.check, Kind.admits_null hkind, Except.mapError]
    | operation c => cases hcell
    | _ => exact ⟨_, rfl, .error⟩

/-- An operation cell is looked at and read after it was executed. -/
theorem Finds.executed {ev : Context → Operation → Task σ Value} {c : OperationCell}
    {outcome : ExecutionOutcome} (hcell : target.operationCell = .ok c)
    (hrun : (executeCell ev cx target).run w = (.ok outcome, w')) :
    Finds (.recorded ev) cx target w w' := by
  have hexecute : ((Access.recorded ev).execute cx target).run w = (.ok outcome, w') := hrun
  have hheld : target.held w'.journal = .ok outcome.value? := by
    rw [Resolved.held, Resolved.operationCell_eq_ok_iff.1 hcell]
    dsimp only
    rw [lastOutcome?_of_executeCell hcell hrun, Option.bind_some]
  constructor
  · simp only [findValue, hcell, run_bind, hexecute, hheld]
    cases outcome <;> rfl
  · intro kind
    simp only [readValue, hcell, run_bind, hexecute, run_liftM, hheld]
    have hinput : target.cell.input? = none := by rw [Resolved.operationCell_eq_ok_iff.1 hcell]; rfl
    cases outcome with
    | succeeded v => exact ⟨_, rfl, .of_check v⟩
    | _ => exact ⟨_, rfl, .missing rfl (by simp [hinput])⟩

end Task

/-! ## Guards -/

/-- Reading a cell without a value: the absent value, or an error which says that there is none. -/
inductive ReadsAbsent (target : Resolved) (kind : Kind) : Except Interrupt Value → Prop
  | null : ReadsAbsent target kind (.ok .null)
  | missing {reason : String} :
      ReadsAbsent target kind (.error (.error (.valueMissing target.label reason)))
  | mistyped : ReadsAbsent target kind
      (.error (.error (.typeMismatch kind "Null" ("value of cell " ++ target.label))))
  | mismatch : ReadsAbsent target kind (.error (.error (target.mismatch "value")))

/-- What is found out about the value of the cell that a locator means is what reading it as a value
of any kind comes to. Both leave the same world behind. -/
structure Guards (cx : Context) (locator : Locator) (found : Except Interrupt Bool × World σ)
    (read : Kind → Except Interrupt Value × World σ) : Prop where
  world_eq (kind : Kind) : (read kind).2 = found.2
  of_true (h : found.1 = .ok true) : ∃ target v, cx.resolve locator = .ok target ∧
    target.held found.2.journal = .ok (some v) ∧ v.isNull = false ∧ ∀ kind, (read kind).1 =
      if kind.admits v then .ok v
      else .error (.error (.typeMismatch kind v.typeName ("value of cell " ++ target.label)))
  of_false (h : found.1 = .ok false) : ∃ target, cx.resolve locator = .ok target ∧
    ∀ kind, ReadsAbsent target kind (read kind).1
  of_error {i : Interrupt} (h : found.1 = .error i) (kind : Kind) : (read kind).1 = .error i

namespace Guards

variable {cx : Context} {locator : Locator} {target : Resolved} {w w' : World σ}

theorem of_interrupt (i : Interrupt) : Guards cx locator (.error i, w) fun _ => (.error i, w) where
  world_eq _ := rfl
  of_true := nofun
  of_false := nofun
  of_error h _ := by
    cases h
    rfl

theorem of_finds {access : Access (Task σ)} (htarget : cx.resolve locator = .ok target)
    (h : Task.Finds access cx target w w') :
    Guards cx locator ((findValue access cx target).run w) fun kind =>
      (readValue access cx kind target).run w := by
  rw [h.found]
  refine ⟨fun kind => ?_, fun htrue => ?_, fun hfalse => ?_, nofun⟩
  · obtain ⟨r, hr, -⟩ := h.read kind
    rw [hr]
  · obtain ⟨v, hheld, hnull⟩ := exists_of_findsValue (Except.ok.inj htrue)
    refine ⟨target, v, htarget, hheld, hnull, fun kind => ?_⟩
    obtain ⟨r, hr, hreads⟩ := h.read kind
    rw [hr]
    rw [hheld] at hreads
    cases hreads with
    | admitted hadmits => rw [if_pos hadmits]
    | mistyped hmeant hadmits =>
      cases hmeant
      rw [if_neg (by simp [hadmits])]
  · refine ⟨target, htarget, fun kind => ?_⟩
    obtain ⟨r, hr, hreads⟩ := h.read kind
    rw [hr]
    have hnone : findsValue (target.held w'.journal) = false := Except.ok.inj hfalse
    generalize hheld : target.held w'.journal = held at hreads hnone
    cases hreads with
    | admitted =>
      cases eq_null_of_findsValue hnone
      exact .null
    | mistyped hmeant =>
      cases hmeant
      cases eq_null_of_findsValue hnone
      exact .mistyped
    | absent => exact .null
    | missing hmeant =>
      cases hmeant
      exact .missing
    | error =>
      cases Resolved.eq_mismatch_of_held hheld
      exact .mismatch

end Guards

theorem Task.guards (ev : Context → Operation → Task σ Value) (cx : Context) (locator : Locator)
    (w : World σ) : Guards cx locator ((hasValue (.recorded ev) cx locator).run w) fun kind =>
      (cellValue (.recorded ev) cx locator kind).run w := by
  simp only [hasValue_eq, cellValue_eq, run_bind, run_liftM]
  cases htarget : cx.resolve locator with
  | error e => exact .of_interrupt (.error e)
  | ok target =>
    cases hcell : target.operationCell with
    | error e => exact .of_finds htarget (.stored hcell)
    | ok c =>
      rcases hrun : (executeCell ev cx target).run w with ⟨i | outcome, w'⟩
      · have hexecute : ((Access.recorded ev).execute cx target).run w = (.error i, w') := hrun
        simp only [Except.mapError, findValue, readValue, hcell, run_bind, hexecute]
        exact .of_interrupt i
      · exact .of_finds htarget (.executed hcell hrun)

/-! ## Both ways to evaluate -/

namespace Task

section Agreement
variable {ev : Context → Operation → Task σ Value} {ev' : Context → Operation → Eval σ Value}
  (h : ∀ cx op, agreement.Rel (ev cx op) (ev' cx op)) (cx : Context) (locator : Locator)
include h

/-- Reads of other cells agree when the evaluations of operations do. -/
theorem agreement_reads (target : Resolved) (phase : Phase) :
    agreement.Reads (.recorded ev) (.recorded ev') cx target phase :=
  Correspondence.reads_recorded agreement_recordsLocal.admits fun _ _ =>
    agreement_settles cx target (Correspondence.outcome agreement_recordsLocal fun x _ => h _ x)

theorem agreement_hasValue : agreement.Rel (hasValue (.recorded ev) cx locator)
    (hasValue (.recorded ev') cx locator) :=
  Correspondence.hasValue (fun _ _ => trivial) fun target c _ =>
    agreement_reads h cx target .execution c

theorem agreement_cellValue (kind : Kind) :
    agreement.Rel (cellValue (.recorded ev) cx locator kind)
      (cellValue (.recorded ev') cx locator kind) :=
  Correspondence.cellValue agreement_recordsLocal.admits (fun _ _ => trivial) fun target c _ =>
    agreement_reads h cx target .execution c

end Agreement

end Task

/-- An evaluation in one go looks and reads as the task of a single step does. -/
theorem Eval.guards (ev : Context → Operation → Eval σ Value) (cx : Context) (locator : Locator)
    (w : World σ) : Guards cx locator ((hasValue (.recorded ev) cx locator).run w) fun kind =>
      (cellValue (.recorded ev) cx locator kind).run w := by
  let step (cx : Context) (op : Operation) : Task σ Value := .ofEval (ev cx op)
  have hstep (cx : Context) (op : Operation) : Task.agreement.Rel (step cx op) (ev cx op) :=
    Task.agreement_ofEval (ev cx op)
  have hguards := Task.guards step cx locator w
  simpa only [Task.agreement_hasValue hstep cx locator w,
    Task.agreement_cellValue hstep cx locator _ w] using hguards

/-- Whichever way operations are evaluated, and in every world, asking whether a cell has a value
guards reading it. -/
theorem hasValue_guards_cellValue (ev : Evaluator σ) (cx : Context) (locator : Locator)
    (w : World σ) :
    Guards cx locator ((hasValue (.recorded ev.run) cx locator).run w)
        (fun kind => (cellValue (.recorded ev.run) cx locator kind).run w) ∧
      Guards cx locator ((hasValue (.recorded ev.task) cx locator).run w)
        (fun kind => (cellValue (.recorded ev.task) cx locator kind).run w) :=
  ⟨Eval.guards ev.run cx locator w, Task.guards ev.task cx locator w⟩

end ReportCalc
