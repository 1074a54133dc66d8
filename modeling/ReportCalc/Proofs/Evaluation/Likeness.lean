import ReportCalc.Proofs.Evaluation.Changing
import ReportCalc.Proofs.Report.Substitution

/-!
# What readers see of a failure

A cell that does not succeed is read as a missing value, whatever has become of it. So when one cell
gets another operation and succeeds with neither, the plain evaluations of everything else are alike
(`Plain.alike_evaluate`): where they come to a result they have the same one, except for the texts
of errors that say why a value or a verdict is missing. The outcomes of all other nodes are alike as
well (`Plain.alike_outcome`), and there such a text only shows in an outcome of the same sort.
-/

namespace ReportCalc

variable {σ α β : Type} {phase : Phase}

/-! ## Computations that are alike -/

/-- The computation gives neither a value nor an error that is recorded as an outcome. -/
def Lost (x : Except Interrupt α) : Prop :=
  x = .error .outOfFuel ∨ ∃ e : EvaluationError, x = .error (.error e) ∧ e.isFatal = true

/-- Whether the error says that a value is missing, or after the execution of operations, that a
verdict is. -/
def EvaluationError.isMissing (phase : Phase) : EvaluationError → Bool
  | .valueMissing .. => true
  | .noVerdict .. => phase ≠ .execution
  | _ => false

/-- Two computations of a phase have the same result, except that errors about something missing
may differ, unless one of them is lost. -/
inductive Alike (phase : Phase) (x y : Except Interrupt α) : Prop
  | lost (h : Lost x ∨ Lost y)
  | same (h : x = y)
  | missing {e e' : EvaluationError} (hx : x = .error (.error e)) (hy : y = .error (.error e'))
      (he : e.isMissing phase = true) (he' : e'.isMissing phase = true)

/-- Two computations have values that are related or fail the same way, unless one of them is
lost. -/
inductive AlikeBy (P : α → α → Prop) (x y : Except Interrupt α) : Prop
  | lost (h : Lost x ∨ Lost y)
  | failed {i : Interrupt} (hx : x = .error i) (hy : y = .error i)
  | values {a b : α} (hx : x = .ok a) (hy : y = .ok b) (hab : P a b)

theorem Lost.bind {x : Except Interrupt α} {f : α → Except Interrupt β} (h : Lost x) :
    Lost (x >>= f) := by
  rcases h with rfl | ⟨e, rfl, he⟩
  · exact .inl rfl
  · exact .inr ⟨e, rfl, he⟩

theorem Lost.rescue {x : Except Interrupt α} {f : EvaluationError → Except Interrupt α}
    (h : Lost x) (hf : ∀ e : EvaluationError, e.isFatal = true → f e = Eval.fail e) :
    Lost (Eval.rescue x f) := by
  rcases h with rfl | ⟨e, rfl, he⟩
  · exact .inl rfl
  · exact .inr ⟨e, hf e he, he⟩

namespace Alike

variable {x y : Except Interrupt α}

theorem bind {f g : α → Except Interrupt β} (h : Alike phase x y)
    (hf : ∀ a, x = .ok a → y = .ok a → Alike phase (f a) (g a)) :
    Alike phase (x >>= f) (y >>= g) := by
  cases h with
  | lost h => exact .lost (h.imp Lost.bind Lost.bind)
  | same h =>
    subst h
    cases x with
    | ok a => exact hf a rfl rfl
    | error i => exact .same rfl
  | missing hx hy he he' =>
    subst hx hy
    exact .missing rfl rfl he he'

theorem rescue {f g : EvaluationError → Except Interrupt α} (h : Alike phase x y)
    (hescapes : ∀ e : EvaluationError, e.isFatal = true ∨ e.isMissing phase = true →
      f e = Eval.fail e ∧ g e = Eval.fail e) (hf : ∀ e, Alike phase (f e) (g e)) :
    Alike phase (Eval.rescue x f) (Eval.rescue y g) := by
  cases h with
  | lost h =>
    refine .lost (h.imp (·.rescue fun e he => ?_) (·.rescue fun e he => ?_))
    · exact (hescapes e (.inl he)).1
    · exact (hescapes e (.inl he)).2
  | same h =>
    subst h
    rcases x with (e | _) | a
    · exact hf e
    · exact .same rfl
    · exact .same rfl
  | @missing e e' hx hy he he' =>
    subst hx hy
    exact .missing (hescapes e (.inr he)).1 (hescapes e' (.inr he')).2 he he'

end Alike

/-- Computations that are alike correspond to each other. Errors about something missing escape, so
that their texts are not looked at. -/
def likeness (phase : Phase) : Correspondence (Except Interrupt) (Except Interrupt) where
  Rel := Alike phase
  Admits _ := True
  Escapes e := e.isFatal = true ∨ e.isMissing phase = true
  not_signal {e} h := by cases e <;> first | rfl | simp [EvaluationError.isFatal,
    EvaluationError.isMissing] at h
  pure _ := .same rfl
  fail _ := .same rfl
  bind hx hf := hx.bind fun a _ _ => hf a
  lift {_ _ x _ _} _ hf := by
    cases x with
    | ok a => exact hf a rfl
    | error e => exact .same rfl
  rescue hx hescapes hf := hx.rescue hescapes fun e => hf e trivial

theorem likeness_admitsLocal : (likeness phase).AdmitsLocal := fun _ _ => trivial

/-! ## Outcomes that are alike -/

/-- Outcomes of a phase are the same except for the text of why a value is missing or a chain has
failed. -/
def Phase.Similar : (phase : Phase) → phase.Outcome → phase.Outcome → Prop
  | .execution, o, o' => o = o' ∨ ∃ m m', o = .valueMissing m ∧ o' = .valueMissing m'
  | .validation, o, o' => o = o' ∨ ∃ m m', o = .failed m ∧ o' = .failed m'
  | .availability, o, o' => o = o' ∨ ∃ m m', o = .failed m ∧ o' = .failed m'

namespace AlikeBy

variable {P Q : α → α → Prop} {x y : Except Interrupt α}

theorem refl (hP : ∀ a, P a a) (x : Except Interrupt α) : AlikeBy P x x := by
  cases x with
  | error i => exact .failed rfl rfl
  | ok a => exact .values rfl rfl (hP a)

/-- Computations with values are not lost. -/
theorem of_ok {a b : α} (h : AlikeBy P (.ok a) (.ok b)) : P a b := by
  cases h with
  | lost h => rcases h with (h | ⟨_, h, -⟩) | (h | ⟨_, h, -⟩) <;> cases h
  | failed hx => cases hx
  | values hx hy hab =>
    cases hx
    cases hy
    exact hab

theorem mono (h : AlikeBy P x y) (hPQ : ∀ a b, P a b → Q a b) : AlikeBy Q x y := by
  cases h with
  | lost h => exact .lost h
  | failed hx hy => exact .failed hx hy
  | values hx hy hab => exact .values hx hy (hPQ _ _ hab)

theorem map {f g : α → β} {Q : β → β → Prop} (h : AlikeBy P x y)
    (hPQ : ∀ a b, P a b → Q (f a) (g b)) :
    AlikeBy Q (do return f (← x)) (do return g (← y)) := by
  cases h with
  | lost h => exact .lost (h.imp Lost.bind Lost.bind)
  | failed hx hy =>
    subst hx hy
    exact .failed rfl rfl
  | values hx hy hab =>
    subst hx hy
    exact .values rfl rfl (hPQ _ _ hab)

theorem bind {f g : α → Except Interrupt β} (h : AlikeBy P x y)
    (hf : ∀ a b, P a b → Alike phase (f a) (g b)) : Alike phase (x >>= f) (y >>= g) := by
  cases h with
  | lost h => exact .lost (h.imp Lost.bind Lost.bind)
  | failed hx hy =>
    subst hx hy
    exact .same rfl
  | values hx hy hab =>
    subst hx hy
    exact hf _ _ hab

end AlikeBy

/-! What becomes of an error is decided by whether it is fatal. -/

section Catching
variable {e : EvaluationError} {completed : α → β} {failed : String → β}

theorem outcomeOf_error (e : EvaluationError) :
    outcomeOf (.error (.error e) : Except Interrupt Value) = Eval.ofExcept e.classify := rfl

theorem completedOr_error (e : EvaluationError) :
    Eval.completedOr completed failed (.error (.error e) : Except Interrupt α) =
      if e.isFatal then Eval.fail e else .ok (failed e.message) := rfl

theorem EvaluationError.not_fatal_of_isMissing (h : e.isMissing phase = true) :
    e.isFatal = false := by
  cases e <;> first | rfl | cases h

theorem Lost.outcomeOf {x : Except Interrupt Value} (h : Lost x) : Lost (outcomeOf x) := by
  rcases h with rfl | ⟨e, rfl, he⟩
  · exact .inl rfl
  · rw [outcomeOf_error, EvaluationError.classify_of_fatal he]
    exact .inr ⟨e, rfl, he⟩

theorem Lost.completedOr {x : Except Interrupt α} (h : Lost x) :
    Lost (Eval.completedOr completed failed x) := by
  rcases h with rfl | ⟨e, rfl, he⟩
  · exact .inl rfl
  · rw [completedOr_error, if_pos he]
    exact .inr ⟨e, rfl, he⟩

end Catching

theorem alikeBy_outcomeOf {x y : Except Interrupt Value} (h : Alike .execution x y) :
    AlikeBy (Phase.Similar .execution) (outcomeOf x) (outcomeOf y) := by
  cases h with
  | lost h => exact .lost (h.imp Lost.outcomeOf Lost.outcomeOf)
  | same h =>
    subst h
    exact .refl (fun _ => .inl rfl) _
  | @missing e e' hx hy he he' =>
    subst hx hy
    cases e <;> cases he
    cases e' <;> cases he'
    exact .values rfl rfl (.inr ⟨_, _, rfl, rfl⟩)

theorem alikeBy_completedOr {completed : α → β} {failed : String → β} {x y : Except Interrupt α}
    (h : Alike phase x y) :
    AlikeBy (fun o o' => o = o' ∨ ∃ m m', o = failed m ∧ o' = failed m')
      (Eval.completedOr completed failed x) (Eval.completedOr completed failed y) := by
  cases h with
  | lost h => exact .lost (h.imp Lost.completedOr Lost.completedOr)
  | same h =>
    subst h
    exact .refl (fun _ => .inl rfl) _
  | missing hx hy he he' =>
    subst hx hy
    rw [completedOr_error, completedOr_error, EvaluationError.not_fatal_of_isMissing he,
      EvaluationError.not_fatal_of_isMissing he']
    exact .values rfl rfl (.inr ⟨_, _, rfl, rfl⟩)

/-- Outcomes are alike when the evaluations of what they depend on are. -/
theorem alikeBy_outcome {rule : phase.Rule} {ev ev' : Operation → Except Interrupt Value}
    (h : ∀ op ∈ phase.evaluated rule, Alike phase (ev op) (ev' op)) :
    AlikeBy phase.Similar (phase.outcome ev rule) (phase.outcome ev' rule) := by
  cases phase with
  | execution => exact alikeBy_outcomeOf (h rule (List.mem_singleton_self _))
  | validation =>
    have hchain : (likeness .validation).Rel (validateChain ev rule) (validateChain ev' rule) :=
      Correspondence.validateChain likeness_admitsLocal h
    exact alikeBy_completedOr hchain
  | availability =>
    have hchain : (likeness .availability).Rel (checkChain ev rule) (checkChain ev' rule) :=
      Correspondence.checkChain likeness_admitsLocal h
    exact alikeBy_completedOr hchain

/-! ## Reading -/

/-- Outcomes that readers cannot tell apart but by the text of the error: the same, or both of them
without a value. -/
def ExecutionOutcome.ReadsAs (o o' : ExecutionOutcome) : Prop :=
  o = o' ∨ o.value? = none ∧ o'.value? = none

theorem Phase.Similar.readsAs {o o' : ExecutionOutcome} (h : Phase.Similar .execution o o') :
    o.ReadsAs o' := by
  rcases h with h | ⟨m, m', rfl, rfl⟩
  · exact .inl h
  · exact .inr ⟨rfl, rfl⟩

theorem succeededValue_of_value?_eq_none {o : ExecutionOutcome} (h : o.value? = none)
    (target : Resolved) :
    succeededValue target o = .error (.valueMissing target.label o.display) := by
  cases o <;> first | rfl | cases h

section Reading
variable {a : CellAddress} {op : Operation} {access access' : Access (Except Interrupt)}
  {cx cx' : Context} {target : Resolved}

theorem alike_readValue {kind : Kind}
    (h : ∀ c, target.operationCell = .ok c → AlikeBy ExecutionOutcome.ReadsAs
      (access.execute cx target) (access'.execute cx' (target.change (.operation a op)))) :
    Alike phase (readValue access cx kind target)
      (readValue access' cx' kind (target.change (.operation a op))) := by
  unfold readValue
  rw [Resolved.operationCell_operation, Resolved.storedValue_operation, Resolved.label_change]
  cases hcell : target.operationCell with
  | error e => exact .same rfl
  | ok c =>
    refine (h c hcell).bind fun o o' hreads => ?_
    rcases hreads with rfl | ⟨ho, ho'⟩
    · have same : succeededValue (target.change (.operation a op)) o = succeededValue target o := by
        cases o <;> simp [succeededValue]
      rw [same]
      exact .same rfl
    · rw [succeededValue_of_value?_eq_none ho, succeededValue_of_value?_eq_none ho']
      exact .missing rfl rfl rfl rfl

theorem alike_findValue
    (h : ∀ c, target.operationCell = .ok c → AlikeBy ExecutionOutcome.ReadsAs
      (access.execute cx target) (access'.execute cx' (target.change (.operation a op)))) :
    Alike phase (findValue access cx target)
      (findValue access' cx' (target.change (.operation a op))) := by
  unfold findValue
  have stored : storedHasValue (target.change (.operation a op)).cell =
    storedHasValue target.cell := Cell.storedHasValue_operation
  rw [Resolved.operationCell_operation, stored]
  cases hcell : target.operationCell with
  | error e => exact .same rfl
  | ok c =>
    refine (h c hcell).bind fun o o' hreads => ?_
    rcases hreads with rfl | ⟨ho, ho'⟩
    · exact .same rfl
    · rw [ho, ho']
      exact .same rfl

/-- Failed verdicts are missing ones to readers, which only come after the execution. -/
theorem alike_readValidity (hphase : phase ≠ .execution)
    (h : AlikeBy (fun e e' : ValidationEvent => Phase.Similar .validation e.content e'.content)
      (access.validate cx target) (access'.validate cx' (target.change (.operation a op)))) :
    Alike phase (readValidity access cx target)
      (readValidity access' cx' (target.change (.operation a op))) := by
  refine h.bind fun e e' hsimilar => ?_
  rw [Resolved.label_change]
  rcases hsimilar with hsame | ⟨m, m', hm, hm'⟩
  · rw [hsame]
    exact .same rfl
  · rw [hm, hm']
    exact .missing rfl rfl (decide_eq_true hphase) (decide_eq_true hphase)

theorem alike_readAvailability (hphase : phase ≠ .execution)
    (h : AlikeBy (fun e e' : AvailabilityEvent => Phase.Similar .availability e.content e'.content)
      (access.check cx target) (access'.check cx' (target.change (.operation a op)))) :
    Alike phase (readAvailability access cx target)
      (readAvailability access' cx' (target.change (.operation a op))) := by
  refine h.bind fun e e' hsimilar => ?_
  rw [Resolved.label_change]
  rcases hsimilar with hsame | ⟨m, m', hm, hm'⟩
  · rw [hsame]
    exact .same rfl
  · rw [hm, hm']
    exact .missing rfl rfl (decide_eq_true hphase) (decide_eq_true hphase)

end Reading

/-! ## Evaluations -/

namespace Plain

theorem execute_eq {ev : Context → Operation → Except Interrupt Value} {cx : Context}
    {target : Resolved} {c : OperationCell} (hc : target.operationCell = .ok c) :
    (access ev).execute cx target = outcomeOf (ev (cx.own target .execution) c.operation) := by
  simp only [access, hc]
  rfl

section Substitution
variable {base : Context} {a : CellAddress} {c : OperationCell} {op : Operation} {l : Nat}
  {chain : ProtocolChain σ}

/-- All evaluations with this much fuel are alike when one cell has another operation. -/
def EvaluatesAlike (base : Context) (chain : ProtocolChain σ) (a : CellAddress) (op : Operation)
    (l : Nat) : Prop :=
  ∀ cx x, base.Within cx →
    Alike cx.phase (evaluate l cx x) (evaluate l (cx.change (.operation a op) chain) x)

/-- Executions of the cell have a value with neither operation. -/
def NeverSucceeds (base : Context) (chain : ProtocolChain σ) (a : CellAddress) (c : OperationCell)
    (op : Operation) : Prop :=
  ∀ l, AlikeBy (fun o o' : ExecutionOutcome => o.value? = none ∧ o'.value? = none)
    (Plain.outcome base ⟨a, .operation c⟩ .execution c.operation l)
    (Plain.outcome (base.change (.operation a op) chain) ⟨a, .operation (c.withOperation op)⟩
      .execution op l)

namespace EvaluatesAlike

variable (hev : EvaluatesAlike base chain a op l) {cx : Context} (hcx : base.Within cx)
  {target : Resolved}
include hev

/-- The outcomes of a rule are alike when all evaluations are. -/
theorem outcome (target : Resolved) (phase : Phase) (rule : phase.Rule) :
    AlikeBy phase.Similar (Plain.outcome base target phase rule l)
      (Plain.outcome (base.change (.operation a op) chain) (target.change (.operation a op)) phase
        rule l) :=
  alikeBy_outcome fun x _ => hev (base.own target phase) x (.own base target phase)

include hcx

/-- Executions read the same: the cell with another operation has a value in neither report. -/
theorem execute (hcell : base.report.cellAt? a = some (.operation c))
    (hfails : NeverSucceeds base chain a c op)
    (htarget : base.report.cellAt? target.address = some target.cell)
    {d : OperationCell} (hd : target.operationCell = .ok d) :
    AlikeBy ExecutionOutcome.ReadsAs ((access (evaluate l)).execute cx target)
      ((access (evaluate l)).execute (cx.change (.operation a op) chain)
        (target.change (.operation a op))) := by
  have hd' : (target.change (.operation a op)).operationCell =
      .ok (if target.address = a then d.withOperation op else d) := by
    rw [Resolved.operationCell_operation, hd]
    rfl
  rw [execute_eq hd, execute_eq hd', own_change hcx, hcx.own_eq]
  by_cases ha : target.address = a
  · obtain ⟨b, cell⟩ := target
    cases ha
    cases htarget.symm.trans hcell
    cases hd
    rw [if_pos rfl]
    have hchange : (base.own ⟨b, .operation c⟩ .execution).change (.operation b op) chain =
        (base.change (.operation b op) chain).own ⟨b, .operation (c.withOperation op)⟩
          .execution := by
      simp only [Context.change, Context.own, Option.map_some, Resolved.change,
        Cell.change_operation, if_true]
    rw [hchange]
    exact (hfails l).mono fun _ _ => .inr
  · rw [if_neg ha]
    exact (hev.outcome target .execution d.operation).mono fun _ _ => Phase.Similar.readsAs

/-- Verdicts are similar. -/
theorem validate :
    AlikeBy (fun e e' : ValidationEvent => Phase.Similar .validation e.content e'.content)
      ((access (evaluate l)).validate cx target)
      ((access (evaluate l)).validate (cx.change (.operation a op) chain)
        (target.change (.operation a op))) := by
  simp only [access, Resolved.rules_operation, own_change hcx, hcx.own_eq]
  cases target.rules with
  | error e => exact .failed rfl rfl
  | ok rules =>
    obtain ⟨_ | chain, _⟩ := rules
    · exact .values rfl rfl (.inl rfl)
    · exact (hev.outcome target .validation chain).map fun _ _ => id

theorem check :
    AlikeBy (fun e e' : AvailabilityEvent => Phase.Similar .availability e.content e'.content)
      ((access (evaluate l)).check cx target)
      ((access (evaluate l)).check (cx.change (.operation a op) chain)
        (target.change (.operation a op))) := by
  simp only [access, Resolved.rules_operation, own_change hcx, hcx.own_eq]
  cases target.rules with
  | error e => exact .failed rfl rfl
  | ok rules =>
    obtain ⟨_, _ | chain⟩ := rules
    · exact .values rfl rfl (.inl rfl)
    · exact (hev.outcome target .availability chain).map fun _ _ => id

end EvaluatesAlike

variable (hwf : base.report.WellFormed) (hcell : base.report.cellAt? a = some (.operation c))
  (hfails : NeverSucceeds base chain a c op)
include hwf hcell hfails

/-- Rules are alike when evaluations with less fuel are. -/
theorem EvaluatesAlike.rule (hev : EvaluatesAlike base chain a op l) {cx : Context}
    (hcx : base.Within cx) (x : Operation) :
    Alike cx.phase (BuiltinRule.ofTag x.tag (access (evaluate l)) cx x)
      (BuiltinRule.ofTag x.tag (access (evaluate l)) (cx.change (.operation a op) chain) x) := by
  refine Correspondence.rule_change (R := likeness cx.phase) (fun _ => trivial)
    (hcx.report_eq ▸ hwf) (fun y _ => hev cx y hcx) fun ref _ target htarget => ?_
  have execute (d : OperationCell) (hd : target.operationCell = .ok d) :=
    hev.execute hcx hcell hfails (hcx.report_eq ▸ Context.InNode.cellAt?_eq htarget) hd
  cases ref.phase with
  | execution => exact ⟨fun _ => alike_readValue execute, alike_findValue execute⟩
  | validation => exact fun hphase => alike_readValidity hphase (hev.validate hcx)
  | availability => exact fun hphase => alike_readAvailability hphase (hev.check hcx)

/-- The induction is on the fuel. -/
theorem alike_evaluate (l : Nat) : EvaluatesAlike base chain a op l := by
  induction l with
  | zero => exact fun _ _ _ => .lost (.inl (.inl rfl))
  | succ l ih =>
    intro cx x hcx
    have unknown : Lost (Eval.fail (.protocolNotFound x.tag x.kind) : Except Interrupt Value) :=
      .inr ⟨_, rfl, rfl⟩
    rw [evaluate, evaluate]
    split
    · split
      · exact Correspondence.checked (R := likeness cx.phase) likeness_admitsLocal
          (ih.rule hwf hcell hfails hcx x)
      · exact .lost (.inr unknown)
    · exact .lost (.inl unknown)

/-- All nodes but the execution of the cell have outcomes that are alike. -/
theorem alike_outcome (l : Nat) (target : Resolved) (phase : Phase) (rule : phase.Rule) :
    AlikeBy phase.Similar (Plain.outcome base target phase rule l)
      (Plain.outcome (base.change (.operation a op) chain) (target.change (.operation a op)) phase
        rule l) :=
  (alike_evaluate hwf hcell hfails l).outcome target phase rule

end Substitution

end Plain

end ReportCalc
