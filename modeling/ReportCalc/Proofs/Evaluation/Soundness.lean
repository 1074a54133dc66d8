import ReportCalc.Proofs.Evaluation.Failures
import ReportCalc.Proofs.Evaluation.Plain
import ReportCalc.Proofs.Report.Typing
import ReportCalc.Proofs.Value.Soundness

/-!
# Evaluating well-typed operations

The plain evaluation of a well-typed operation gives a value of the kind of the operation, or fails
with an ordinary error (`Plain.evaluate_sound`). There is a protocol for every operation, the checks
of kinds pass, and no rule is given a value that it cannot use. So what a phase makes of a cell of a
well-typed report is never the mark of a mistake in types (`Plain.outcome_sound`).
-/

namespace ReportCalc

variable {σ α β : Type}

/-! ## Protocols -/

namespace Operation

variable {resolve : Locator → Except EvaluationError Resolved} {op : Operation}

theorem Typed.exists_mem_builtinProtocols (h : op.Typed resolve) :
    ∃ entry ∈ (builtinProtocols op.kind : List (List OperationTag × Protocol σ)),
      op.tag ∈ entry.1 := by
  refine exists_mem_builtinProtocols_iff.2 ⟨?_, fun harithmetic => ?_⟩
  · rintro name result args payload rfl
    cases h
  · cases op with
    | sum | subtract | multiply | divide => exact h.1
    | _ => cases harithmetic

end Operation

/-! ## Sound computations -/

/-- An interruption by an ordinary error. Running out of fuel says nothing about kinds. -/
def Interrupt.IsOrdinary : Interrupt → Prop
  | .error e => e.isOrdinary = true
  | .outOfFuel => True

theorem EvaluationError.isOrdinary_of_isUnlocated {e : EvaluationError}
    (h : e.isUnlocated = true) : e.isOrdinary = true := by
  cases e <;> first | rfl | cases h

namespace Plain

/-- The computation gives a value with the property, or is interrupted by an ordinary error. -/
abbrev Sound (P : α → Prop) (x : Except Interrupt α) : Prop := Yields Interrupt.IsOrdinary P x

/-- The evaluation gives a value of the kind of the operation, or an ordinary error. -/
abbrev Respects (ev : Operation → Except Interrupt Value) (op : Operation) : Prop :=
  Sound (op.kind.admits · = true) (ev op)

/-! ## Rules on operands -/

section Operands
variable {ev : Operation → Except Interrupt Value} {P : α → Prop}

/-- A truth value can be asked for one. -/
theorem Respects.condition {op : Operation} (h : Respects ev op) (hkind : op.kind = .bool)
    {context : String} {f : Bool → Except Interrupt α} (hf : ∀ b, Sound P (f b)) :
    Sound P (do f (← expectBool (← ev op) context)) := by
  refine h.bind fun v hv => ?_
  obtain ⟨b, hb⟩ := expectBool_of_admits (hkind ▸ hv) context
  rw [hb]
  exact hf b

theorem Respects.text {op : Operation} (h : Respects ev op) (htext : op.IsText)
    {context : String} {f : Option String → Except Interrupt α} (hf : ∀ text, Sound P (f text)) :
    Sound P (do f (← expectText (← ev op) context)) := by
  refine h.bind fun v hv => ?_
  obtain ⟨text, heq⟩ := expectText_of_admits htext hv context
  rw [heq]
  exact hf text

theorem messageText_sound {message : Option Operation} {fallback : Option String}
    (htext : ∀ op ∈ message.toList, op.IsText) (h : ∀ op ∈ message.toList, Respects ev op) :
    Sound (fun _ => True) (messageText ev message fallback) := by
  cases message with
  | none => exact .ok trivial
  | some op =>
    have hmem : op ∈ (some op).toList := List.mem_singleton_self op
    refine (h op hmem).bind fun v hv => .lift ?_
    obtain ⟨text, heq⟩ := expectText_of_admits (htext op hmem) hv "validation message"
    exact .of_eq_ok heq trivial

/-- The induction is on the steps; what is left after them is the end of the chain. -/
theorem runValidation_sound {atEnd : Except Interrupt Validity}
    {steps : List (ValidationStep Operation)}
    (htyped : ∀ step ∈ steps, step.condition.kind = step.conditionKind ∧
      ∀ op ∈ step.messages, op.IsText)
    (h : ∀ op ∈ steps.flatMap Operation.ofStep, Respects ev op)
    (hend : Sound (fun _ => True) atEnd) :
    Sound (fun _ => True) (runValidation ev atEnd steps) := by
  induction steps with
  | nil => exact hend
  | cons step rest ih =>
    obtain ⟨hcondition, htext⟩ := htyped step (List.mem_cons_self ..)
    simp only [List.flatMap_cons, List.mem_append, Operation.ofStep_eq, List.mem_cons] at h
    refine (h _ (.inl (.inl rfl))).bind fun v hv => ?_
    obtain ⟨holds, fallback, hdecide⟩ := ValidationStep.decide_of_admits (hcondition ▸ hv)
    rw [hdecide]
    cases haction : step.action holds with
    | next =>
      exact ih (fun s hs => htyped s (List.mem_cons_of_mem _ hs)) fun op hop => h op (.inr hop)
    | stop verdict message =>
      have messages {op : Operation} (hop : op ∈ message.toList) : op ∈ step.messages :=
        ValidationStep.mem_messages haction hop
      exact (messageText_sound (fun op hop => htext op (messages hop)) fun op hop =>
        h op (.inl (.inr (messages hop)))).bind fun _ _ => .ok trivial

/-- A validation chain comes to a verdict unless a condition or a message fails. -/
theorem validateChain_sound {chain : ValidationRule}
    {resolve : Locator → Except EvaluationError Resolved}
    (htyped : (Operation.validate chain).Typed resolve)
    (h : ∀ op ∈ (Operation.validate chain).operands, Respects ev op) :
    Sound (fun _ => True) (validateChain ev chain) := by
  simp only [Operation.operands, List.mem_append] at h
  refine (runValidation_sound htyped.1 (fun op hop => h op (.inl hop)) ?_).rescue id fun e he => ?_
  · exact (messageText_sound htyped.2 fun op hop => h op (.inr hop)).bind fun _ _ => .ok trivial
  · cases e with
    | aborted | notApplicable => exact .ok trivial
    | _ => exact .fail he

theorem runAvailability_sound {atEnd : Availability} {steps : List (AvailabilityStep Operation)}
    (hkind : ∀ step ∈ steps, step.condition.kind = .bool)
    (h : ∀ step ∈ steps, Respects ev step.condition) :
    Sound (fun _ => True) (runAvailability ev atEnd steps) := by
  induction steps with
  | nil => exact .ok trivial
  | cons step rest ih =>
    simp only [List.mem_cons, forall_eq_or_imp] at hkind h
    refine h.1.condition hkind.1 fun holds => ?_
    cases step.action holds with
    | next => exact ih hkind.2 h.2
    | stop availability => exact .ok trivial

theorem checkChain_sound {chain : AvailabilityRule}
    {resolve : Locator → Except EvaluationError Resolved}
    (htyped : (Operation.checkAvailability chain).Typed resolve)
    (h : ∀ op ∈ (Operation.checkAvailability chain).operands, Respects ev op) :
    Sound (fun _ => True) (checkChain ev chain) :=
  runAvailability_sound htyped fun _ hstep => h _ (List.mem_map_of_mem hstep)

theorem decideBy_sound {decisive : Bool} {operands : List Operation}
    (hkind : ∀ op ∈ operands, op.kind = .bool) (h : ∀ op ∈ operands, Respects ev op) :
    Sound (Kind.bool.admits · = true) (BuiltinRule.decideBy ev decisive operands) := by
  induction operands with
  | nil => exact .ok rfl
  | cons op rest ih =>
    simp only [List.mem_cons, forall_eq_or_imp] at hkind h
    refine h.1.condition hkind.1 fun holds => ?_
    split
    · exact .ok rfl
    · exact ih hkind.2 h.2

theorem foldOperands_sound {arithmetic : Arithmetic} {operands : List Operation} {kind : Kind}
    (hkind : kind.isNumeric = true) (htakes : ∀ op ∈ operands, kind.Takes op.kind)
    (h : ∀ op ∈ operands, Respects ev op) :
    Sound (kind.admits · = true) (BuiltinRule.foldOperands ev arithmetic operands kind) := by
  obtain ⟨s, hs, hnumeric⟩ := Kind.exists_scalar?_of_isNumeric hkind
  have counts : ∀ op ∈ operands, Sound (fun v => v = .null ∨ v.CountsAs s) (ev op) :=
    fun op hop => (h op hop).mono (fun _ he => he) fun v hv => (htakes op hop).countsAs hs hv
  exact (Yields.mapM counts).bind fun values hvalues =>
    .lift (Arithmetic.fold_sound hs hnumeric hvalues)

/-- An absent operand is an error where the result must not be absent. -/
theorem combineOperands_sound {label : String} {arithmetic : Arithmetic} {left right : Operation}
    {kind : Kind} (hkind : kind.isNumeric = true) (hl : kind.Takes left.kind)
    (hr : kind.Takes right.kind) (hleft : Respects ev left) (hright : Respects ev right) :
    Sound (kind.admits · = true)
      (BuiltinRule.combineOperands ev label arithmetic left right kind) := by
  obtain ⟨s, hs, hnumeric⟩ := Kind.exists_scalar?_of_isNumeric hkind
  refine hleft.bind fun v hv => hright.bind fun w hw => ?_
  split
  · exact .fail rfl
  · next hnull =>
    refine .lift (Arithmetic.binary_sound hs hnumeric (hl.countsAs hs hv) (hr.countsAs hs hw) ?_)
    intro h
    simpa [h] using hnull

end Operands

/-! ## Rules on cells -/

/-- The cell can be read without a mistake in kinds: an input holds a value of its kind, and the
execution of an operation gives one of the kind of the operation. -/
structure Readable (access : Access (Except Interrupt)) (cx : Context) (target : Resolved) :
    Prop where
  input : ∀ c, target.cell = .input c → c.Conforms
  operation : ∀ c, target.cell = .operation c →
    Sound (∀ v, · = .succeeded v → c.operation.kind.admits v = true) (access.execute cx target)

section Cells
variable {access : Access (Except Interrupt)} {cx : Context} {locator : Locator}

/-- What a constant or an input holds is a value of the kinds that the cell can be read as. -/
theorem storedValue_sound {target : Resolved} {kind : Kind}
    (hprovides : target.cell.Provides kind) (hinput : ∀ c, target.cell = .input c → c.Conforms)
    (hoperation : ∀ c, target.cell ≠ .operation c) :
    ReportCalc.Sound (kind.admits · = true) (storedValue target kind) := by
  unfold storedValue
  cases hcell : target.cell with
  | const c =>
    rw [hcell] at hprovides
    exact .ok hprovides
  | input c =>
    rw [hcell] at hprovides
    cases hvalue : c.value with
    | some v =>
      simp only [hvalue]
      exact .ok (Kind.Fits.admits hprovides ((hinput c hcell).admits hvalue))
    | none =>
      simp only [hvalue]
      split
      · next hoptional => exact .ok (Kind.admits_null hoptional)
      · exact .error rfl
  | operation c => exact absurd hcell (hoperation c)
  | null | slotted =>
    rw [hcell] at hprovides
    cases hprovides

theorem cellValue_sound {kind : Kind}
    (htyped : (Operation.cellValue locator kind).Typed cx.resolve)
    (h : ReportCalc.Sound (Readable access cx) (cx.resolve locator)) :
    Sound (kind.admits · = true) (cellValue access cx locator kind) := by
  refine (Yields.lift h.and_eq).bind fun target htarget => ?_
  obtain ⟨htarget, hread⟩ := htarget
  have hprovides := htyped target htarget
  have check {v : Value} (hv : kind.admits v = true) :
      Sound (kind.admits · = true)
        (liftM (kind.check v ("value of cell " ++ target.label)) : Except Interrupt Value) :=
    .lift (.of_eq_ok (if_pos hv) hv)
  cases hcell : target.cell with
  | operation c =>
    rw [hcell] at hprovides
    refine (hread.operation c hcell).bind fun outcome houtcome => ?_
    cases outcome with
    | succeeded v => exact check (Kind.Fits.admits hprovides (houtcome v rfl))
    | _ => exact .fail rfl
  | _ =>
    have hstored := storedValue_sound hprovides hread.input (by simp [hcell])
    exact (Yields.lift hstored).bind fun _ => check

theorem hasValue_sound (h : ReportCalc.Sound (Readable access cx) (cx.resolve locator)) :
    Sound (fun _ => True) (hasValue access cx locator) := by
  refine (Yields.lift h).bind fun target hread => ?_
  cases hcell : target.cell with
  | operation c => exact (hread.operation c hcell).bind fun _ _ => .ok trivial
  | _ => exact .ok trivial

end Cells

/-! ## Operations -/

/-- One case for each kind of operation: its operands and the cell that it reads give values that
the rule can use, and its result is of its own kind. Verdicts are asked for in no phase in which
they could be had. -/
theorem ofTag_sound {access : Access (Except Interrupt)} {cx : Context} {op : Operation}
    (htyped : op.Typed cx.resolve) (hphase : op.kind.IsVerdict → cx.phase = .execution)
    (hoperands : ∀ x ∈ op.operands, Respects (access.evaluate cx) x)
    (hreads : ∀ locator, ReportCalc.Sound (Readable access cx) (cx.resolve locator)) :
    Sound (op.kind.admits · = true) (BuiltinRule.ofTag op.tag access cx op) := by
  cases op with
  | const => exact .ok htyped
  | abort | notApplicable => exact .fail rfl
  | custom => cases htyped
  | cellValue locator kind => exact cellValue_sound htyped (hreads locator)
  | hasValue locator => exact (hasValue_sound (hreads locator)).bind fun _ _ => .ok rfl
  | validity locator =>
    have hrefused : cx.phase ∉ [Phase.validation, .availability] := by simp [hphase (.inl rfl)]
    refine (Yields.lift (P := fun _ => False) ?_).bind fun _ => nofun
    rw [Context.requirePhase, if_neg hrefused]
    exact .error rfl
  | availability locator =>
    have hrefused : cx.phase ∉ [Phase.availability] := by simp [hphase (.inr rfl)]
    refine (Yields.lift (P := fun _ => False) ?_).bind fun _ => nofun
    rw [Context.requirePhase, if_neg hrefused]
    exact .error rfl
  | ifThenElse c t e kind =>
    simp only [Operation.operands, List.mem_cons, List.not_mem_nil, or_false, forall_eq_or_imp,
      forall_eq] at hoperands
    obtain ⟨hcondition, htrue, hfalse⟩ := htyped
    refine hoperands.1.condition hcondition fun holds => ?_
    split
    · exact hoperands.2.1.mono (fun _ he => he) fun v => htrue.admits
    · exact hoperands.2.2.mono (fun _ he => he) fun v => hfalse.admits
  | andAlso | orElse => exact decideBy_sound htyped hoperands
  | not a =>
    exact (hoperands a (List.mem_singleton_self a)).condition htyped fun _ => .ok rfl
  | compare a comparison b =>
    simp only [Operation.operands, List.mem_cons, List.not_mem_nil, or_false, forall_eq_or_imp,
      forall_eq] at hoperands
    refine hoperands.1.bind fun v hv => hoperands.2.bind fun w hw => ?_
    obtain ⟨holds, hcompare⟩ := Value.compare_of_admits htyped hv hw
    rw [hcompare]
    exact .ok rfl
  | sum | multiply => exact foldOperands_sound htyped.1 htyped.2 hoperands
  | subtract a b | divide a b =>
    simp only [Operation.operands, List.mem_cons, List.not_mem_nil, or_false, forall_eq_or_imp,
      forall_eq] at hoperands
    obtain ⟨hkind, hl, hr⟩ := htyped
    exact combineOperands_sound hkind hl hr hoperands.1 hoperands.2
  | withMessage c message =>
    refine (hoperands c (List.mem_cons_self ..)).condition htyped.1 fun holds => ?_
    cases message with
    | none => exact .ok rfl
    | some message =>
      exact (hoperands message (by simp [Operation.operands])).text
        (htyped.2 message (List.mem_singleton_self _)) fun _ => .ok rfl
  | validate => exact (validateChain_sound htyped hoperands).bind fun _ _ => .ok rfl
  | checkAvailability => exact (checkChain_sound htyped hoperands).bind fun _ _ => .ok rfl

end Plain

/-! ## Outcomes -/

/-- The outcome of a phase for a cell tells of its evaluation that it has given a value of the kind
of the operation, or a verdict, or else that it has failed with an ordinary error. -/
def Phase.Typed (ev : Operation → Except Interrupt Value) : (phase : Phase) → phase.Rule →
    phase.Outcome → Prop
  | .execution, op, outcome =>
    (∃ v, ev op = .ok v ∧ op.kind.admits v = true ∧ outcome = .succeeded v) ∨
      ∃ e, ev op = .error (.error e) ∧ e.isOrdinary = true ∧ e.classify = .ok outcome
  | .validation, chain, outcome =>
    (∃ v, validateChain ev chain = .ok v ∧ outcome = .completed v) ∨
      ∃ e, validateChain ev chain = .error (.error e) ∧ e.isOrdinary = true ∧
        outcome = .failed e.message
  | .availability, chain, outcome =>
    (∃ a, checkChain ev chain = .ok a ∧ outcome = .completed a) ∨
      ∃ e, checkChain ev chain = .error (.error e) ∧ e.isOrdinary = true ∧
        outcome = .failed e.message

/-- An interruption by an operation that is not allowed in the phase. Running out of fuel says
nothing about phases. -/
def Interrupt.IsWrongPhase : Interrupt → Prop
  | .error e => ∃ tag phase required, e = .wrongPhase tag phase required
  | .outOfFuel => True

/-- The only ordinary error that is fatal is that of a wrong phase. -/
theorem Interrupt.IsOrdinary.isWrongPhase {e : EvaluationError}
    (h : (Interrupt.error e).IsOrdinary) (hfatal : e.isFatal = true) :
    (Interrupt.error e).IsWrongPhase := by
  cases e <;> cases h <;> cases hfatal
  exact ⟨_, _, _, rfl⟩

theorem Interrupt.IsWrongPhase.isOrdinary {i : Interrupt} (h : i.IsWrongPhase) : i.IsOrdinary := by
  cases i with
  | error e =>
    obtain ⟨tag, phase, required, rfl⟩ := h
    rfl
  | outOfFuel => trivial

namespace Plain

theorem outcomeOf_sound {x : Except Interrupt Value} {kind : Kind}
    (h : Sound (kind.admits · = true) x) :
    Yields Interrupt.IsWrongPhase (fun outcome =>
      (∃ v, x = .ok v ∧ kind.admits v = true ∧ outcome = .succeeded v) ∨
        ∃ e, x = .error (.error e) ∧ e.isOrdinary = true ∧ e.classify = .ok outcome)
      (outcomeOf x) := by
  rcases x with (e | _) | v
  · change Yields _ _ (liftM e.classify : Except Interrupt ExecutionOutcome)
    cases hclassify : e.classify with
    | ok outcome => exact .ok (.inr ⟨e, rfl, h, hclassify⟩)
    | error e' =>
      obtain rfl := EvaluationError.eq_of_classify hclassify
      refine .fail (Interrupt.IsOrdinary.isWrongPhase h ?_)
      by_contra hfatal
      simp [EvaluationError.classify, hfatal] at hclassify
  · exact .error trivial
  · exact .ok (.inl ⟨v, rfl, h, rfl⟩)

theorem completedOr_sound {x : Except Interrupt α} {completed : α → β} {failed : String → β}
    (h : Sound (fun _ => True) x) :
    Yields Interrupt.IsWrongPhase (fun outcome => (∃ a, x = .ok a ∧ outcome = completed a) ∨
        ∃ e, x = .error (.error e) ∧ e.isOrdinary = true ∧ outcome = failed e.message)
      (Eval.completedOr completed failed x) := by
  rcases x with (e | _) | a
  · change Yields _ _ (if e.isFatal then Eval.fail e else pure (failed e.message) :
      Except Interrupt β)
    split
    · next hfatal => exact .fail (Interrupt.IsOrdinary.isWrongPhase h hfatal)
    · exact .ok (.inr ⟨e, rfl, h, rfl⟩)
  · exact .error trivial
  · exact .ok (.inl ⟨a, rfl, rfl⟩)

/-- No outcome, and no error of which none is made, is the mark of a mistake in kinds. -/
theorem outcome_sound_of {phase : Phase} {rule : phase.Rule}
    {ev : Operation → Except Interrupt Value} {resolve : Locator → Except EvaluationError Resolved}
    (htyped : (phase.operation rule).Typed resolve)
    (h : ∀ op ∈ phase.evaluated rule, Respects ev op) :
    Yields Interrupt.IsWrongPhase (phase.Typed ev rule) (phase.outcome ev rule) := by
  cases phase with
  | execution => exact outcomeOf_sound (h rule (List.mem_singleton_self _))
  | validation => exact completedOr_sound (validateChain_sound htyped h)
  | availability => exact completedOr_sound (checkChain_sound htyped h)

end Plain

/-! ## Evaluations -/

namespace Context

/-- There is a protocol for every typed operation of a standard kind. -/
def KnowsTyped (cx : Context) : Prop :=
  ∀ op resolve, op.kind ∈ Kind.standard → Operation.Typed resolve op → cx.knows (.of op) = true

/-- Evaluations of well-typed operations respect their kinds. Verdicts are only evaluated in the
phase in which no other cell can be asked for its verdict. -/
def Respected (base : Context) (ev : Context → Operation → Except Interrupt Value) : Prop :=
  ∀ cx op, base.Within cx → cx.current.isSome = true → op.WellTyped cx.resolve →
    (op.kind.IsVerdict → cx.phase = .execution) → Plain.Respects (ev cx) op

variable {base : Context} (htyped : base.report.WellTyped)
  (hindex : base.index = .build base.report)
include htyped hindex

/-- What a phase evaluates for a cell is well-typed in the context in which it does. -/
theorem wellTyped_own {target : Resolved} {phase : Phase} {rule : phase.Rule}
    (hcell : base.report.cellAt? target.address = some target.cell)
    (hrule : target.cell.rule? phase = some rule) :
    (phase.operation rule).WellTyped (base.own target phase).resolve := by
  have hop := htyped.operations _ _ phase _ hcell (Cell.root?_eq hrule)
  rwa [← hindex] at hop

theorem outcome_sound_of {ev : Context → Operation → Except Interrupt Value}
    (hev : base.Respected ev) {target : Resolved} {phase : Phase} {rule : phase.Rule}
    (hcell : base.report.cellAt? target.address = some target.cell)
    (hrule : target.cell.rule? phase = some rule) :
    Yields Interrupt.IsWrongPhase (phase.Typed (ev (base.own target phase)) rule)
      (phase.outcome (ev (base.own target phase)) rule) := by
  have hop := wellTyped_own htyped hindex hcell hrule
  refine Plain.outcome_sound_of hop.typed fun x hx => ?_
  cases phase with
  | execution =>
    cases List.mem_singleton.1 hx
    exact hev _ _ (.own base target .execution) rfl hop fun _ => rfl
  | validation =>
    exact hev _ _ (.own base target .validation) rfl (hop.operand hx) fun hverdict =>
      absurd hverdict (hop.typed.not_isVerdict_of_mem_validate hx)
  | availability =>
    refine hev _ _ (.own base target .availability) rfl (hop.operand hx) fun hverdict => ?_
    obtain ⟨step, hstep, rfl⟩ := List.mem_map.1 hx
    exact absurd hverdict
      (Kind.not_isVerdict_of_scalar? (congrArg Kind.scalar? (hop.typed step hstep)))

end Context

namespace Plain

variable {base : Context} (htyped : base.report.WellTyped)
  (hindex : base.index = .build base.report)
include htyped hindex

/-- Every cell that a locator leads to can be read. -/
theorem readable {ev : Context → Operation → Except Interrupt Value} (hev : base.Respected ev)
    {cx : Context} (hcx : base.Within cx) (hcurrent : cx.current.isSome = true)
    (locator : Locator) :
    ReportCalc.Sound (Readable (access ev) cx) (cx.resolve locator) := by
  obtain ⟨current, hcurrent⟩ := Option.isSome_iff_exists.1 hcurrent
  have hresolve : ReportCalc.Sound (fun _ => True) (cx.resolve locator) := by
    rw [Context.resolve, hcurrent]
    exact (ReportIndex.resolve_yields locator current.address).mono
      (fun _ => EvaluationError.isOrdinary_of_isUnlocated) fun _ _ => trivial
  refine hresolve.and_eq.mono (fun _ he => he) fun target htarget => ?_
  have hcell := Context.InNode.cellAt?_eq htarget.1
  rw [hcx.report_eq] at hcell
  constructor
  · intro c hc
    exact htyped.inputs target.address c (hc ▸ hcell)
  · intro c hc
    have hoperation : target.operationCell = .ok c := Resolved.operationCell_eq_ok_iff.2 hc
    have hrule := Resolved.rule?_execution hoperation
    refine (Yields.lift (.of_eq_ok hoperation rfl)).bind fun d hd => ?_
    obtain rfl := hd
    rw [hcx.own_eq]
    refine (Context.outcome_sound_of htyped hindex hev hcell hrule).mono
      (fun _ => Interrupt.IsWrongPhase.isOrdinary) fun outcome houtcome v hv => ?_
    rcases houtcome with ⟨w, -, hw, rfl⟩ | ⟨e, -, -, he⟩
    · cases hv
      exact hw
    · subst hv
      cases e <;> cases he

/-- The plain evaluation of a well-typed operation respects its kind. The induction is on the
fuel. -/
theorem evaluate_sound (hknows : base.KnowsTyped) (fuel : Nat) :
    base.Respected (evaluate fuel) := by
  induction fuel with
  | zero => exact fun _ _ _ _ _ _ => .error trivial
  | succ fuel ih =>
    intro cx op hcx hcurrent hop hphase
    rw [Respects, evaluate, if_pos (hcx.knows_eq ▸ hknows op _ hop.kind hop.typed)]
    have hrule := ofTag_sound hop.typed hphase (fun x hx => ih cx x hcx hcurrent (hop.operand hx)
      fun hverdict => hphase (hop.typed.isVerdict_of_mem_operands hx hverdict))
      (readable htyped hindex ih hcx hcurrent)
    exact hrule.bind fun v hv => .lift (.of_eq_ok (if_pos hv) hv)

/-- What a phase makes of a cell of a well-typed report is never the mark of a mistake in kinds. -/
theorem outcome_sound (hknows : base.KnowsTyped) {target : Resolved} {phase : Phase}
    {rule : phase.Rule} (hcell : base.report.cellAt? target.address = some target.cell)
    (hrule : target.cell.rule? phase = some rule) (fuel : Nat) :
    Yields Interrupt.IsWrongPhase (phase.Typed (evaluate fuel (base.own target phase)) rule)
      (outcome base target phase rule fuel) :=
  Context.outcome_sound_of htyped hindex (evaluate_sound htyped hindex hknows fuel) hcell hrule

omit htyped hindex in
/-- A visit fails as the evaluation does of which it makes an outcome. -/
theorem visit_yields {E : Interrupt → Prop} {ev : Context → Operation → Except Interrupt Value}
    {cx : Context} {target : Resolved} {phase : Phase} {rule : phase.Rule}
    (hrule : target.cell.rule? phase = some rule)
    (h : Yields E (fun _ => True) (phase.outcome (ev (cx.own target phase)) rule)) :
    Yields E (fun _ => True) (phase.visit (access ev) cx target) := by
  cases phase with
  | execution =>
    obtain ⟨c, hc, rfl⟩ := Resolved.exists_operation_of_rule? hrule
    have hoperation : target.operationCell = .ok c := Resolved.operationCell_eq_ok_iff.2 hc
    refine Yields.bind (P := fun _ => True) ?_ fun _ _ => .ok trivial
    exact (Yields.lift (.of_eq_ok hoperation rfl)).bind fun d hd => hd ▸ h
  | validation =>
    obtain ⟨rules, hrules, hchain⟩ := Option.bind_eq_some_iff.1 hrule
    refine Yields.bind (P := fun _ => True) ?_ fun _ _ => .ok trivial
    refine (Yields.lift (.of_eq_ok (Resolved.rules_eq_ok_iff.2 hrules) rfl)).bind fun d hd => ?_
    obtain rfl := hd
    rw [hchain]
    exact h.bind fun _ _ => .ok trivial
  | availability =>
    obtain ⟨rules, hrules, hchain⟩ := Option.bind_eq_some_iff.1 hrule
    refine Yields.bind (P := fun _ => True) ?_ fun _ _ => .ok trivial
    refine (Yields.lift (.of_eq_ok (Resolved.rules_eq_ok_iff.2 hrules) rfl)).bind fun d hd => ?_
    obtain rfl := hd
    rw [hchain]
    exact h.bind fun _ _ => .ok trivial

end Plain

end ReportCalc
