import ReportCalc.Proofs.Evaluation.Deciding

/-!
# Logic and chains

The built-in conjunction and disjunction of operations are the short-circuit `List.allM` and
`List.anyM` of the truth values of their operands, and so are chains of which every step requires
one condition. These are equations between computations. So the laws that follow from them hold of
results and errors, and of everything that the operands record on the way
(`ProtocolChain.logic_short_circuits`).
-/

namespace ReportCalc

variable {σ α β : Type} {m : Type → Type}

/-- A monad whose laws say also that an interruption ends a sequence. -/
class LawfulInterruptible (m : Type → Type) [Interruptible m] : Prop extends LawfulMonad m where
  throw_bind {α β : Type} (i : Interrupt) (f : α → m β) : (throw i >>= f) = throw i

instance : LawfulInterruptible (Eval σ) where
  throw_bind _ _ := rfl

instance : LawfulInterruptible (Task σ) where
  throw_bind _ _ := rfl

/-! ## Short-circuit lists -/

section Lists
variable [Monad m] [LawfulMonad m] (p : α → m Bool)

theorem allM_append (xs ys : List α) :
    (xs ++ ys).allM p = xs.allM p >>= fun holds => if holds then ys.allM p else pure false := by
  induction xs with
  | nil => simp
  | cons x xs ih =>
    simp only [List.cons_append, List.allM_cons, bind_assoc, ih]
    refine bind_congr fun holds => ?_
    cases holds <;> simp

theorem anyM_append (xs ys : List α) :
    (xs ++ ys).anyM p = xs.anyM p >>= fun holds => if holds then pure true else ys.anyM p := by
  induction xs with
  | nil => simp
  | cons x xs ih =>
    simp only [List.cons_append, List.anyM_cons, bind_assoc, ih]
    refine bind_congr fun holds => ?_
    cases holds <;> simp

theorem allM_singleton (x : α) : [x].allM p = p x := by
  rw [List.allM_cons]
  refine (bind_congr fun holds => ?_).trans (bind_pure (p x))
  cases holds <;> rfl

theorem anyM_singleton (x : α) : [x].anyM p = p x := by
  rw [List.anyM_cons]
  refine (bind_congr fun holds => ?_).trans (bind_pure (p x))
  cases holds <;> rfl

omit [LawfulMonad m] in
theorem allM_map {f : β → α} {q : β → m Bool} {xs : List β} (h : ∀ x ∈ xs, p (f x) = q x) :
    (xs.map f).allM p = xs.allM q := by
  induction xs with
  | nil => rfl
  | cons x xs ih =>
    simp only [List.mem_cons, forall_eq_or_imp] at h
    simp only [List.map_cons, List.allM_cons, h.1, ih h.2]

omit [LawfulMonad m] in
theorem anyM_map {f : β → α} {q : β → m Bool} {xs : List β} (h : ∀ x ∈ xs, p (f x) = q x) :
    (xs.map f).anyM p = xs.anyM q := by
  induction xs with
  | nil => rfl
  | cons x xs ih =>
    simp only [List.mem_cons, forall_eq_or_imp] at h
    simp only [List.map_cons, List.anyM_cons, h.1, ih h.2]

theorem not_allM (xs : List α) : Bool.not <$> xs.allM p = xs.anyM fun x => Bool.not <$> p x := by
  rw [List.allM_eq_not_anyM_not, Functor.map_map]
  simp

theorem not_anyM (xs : List α) : Bool.not <$> xs.anyM p = xs.allM fun x => Bool.not <$> p x := by
  rw [List.allM_eq_not_anyM_not]
  simp

end Lists

/-! ## Truth values of operations -/

section Truth
variable [Interruptible m] {ev : Operation → m Value} {op : Operation} {xs : List Operation}

/-- The truth value of an operand. -/
def truth (ev : Operation → m Value) (op : Operation) : m Bool := do
  expectBool (← ev op) "logical operand"

/-- Every value of the operation is a truth value. -/
def GivesBool (ev : Operation → m Value) (op : Operation) : Prop :=
  ev op = Value.bool <$> truth ev op

section Lawful
variable [LawfulMonad m]

theorem truth_eq_of_eq {x : m Bool} (h : ev op = Value.bool <$> x) : truth ev op = x := by
  rw [truth, h, bind_map_left]
  exact bind_pure x

theorem GivesBool.of_eq {x : m Bool} (h : ev op = Value.bool <$> x) : GivesBool ev op := by
  rw [GivesBool, truth_eq_of_eq h, h]

/-- What a truth value is expected for makes no difference where there is one. -/
theorem GivesBool.expect_eq (h : GivesBool ev op) (context : String) :
    (ev op >>= fun v => (liftM (expectBool v context) : m Bool)) = truth ev op := by
  rw [h, bind_map_left]
  exact bind_pure _

/-! ### Conjunction and disjunction -/

theorem decideBy_false (ev : Operation → m Value) (xs : List Operation) :
    BuiltinRule.decideBy ev false xs = Value.bool <$> xs.allM (truth ev) := by
  induction xs with
  | nil => simp [BuiltinRule.decideBy]
  | cons x xs ih =>
    simp only [BuiltinRule.decideBy, List.allM_cons, truth, map_bind, bind_assoc, ih]
    refine bind_congr fun v => bind_congr fun holds => ?_
    cases holds <;> simp

theorem decideBy_true (ev : Operation → m Value) (xs : List Operation) :
    BuiltinRule.decideBy ev true xs = Value.bool <$> xs.anyM (truth ev) := by
  induction xs with
  | nil => simp [BuiltinRule.decideBy]
  | cons x xs ih =>
    simp only [BuiltinRule.decideBy, List.anyM_cons, truth, map_bind, bind_assoc, ih]
    refine bind_congr fun v => bind_congr fun holds => ?_
    cases holds <;> simp

/-! ### Chains of conditions -/

/-- The availability of a cell whose conditions hold or not. -/
def Availability.ofHolds (holds : Bool) : Availability := if holds then .enabled else .disabled

/-- The validity of a cell whose conditions hold or not. -/
def Validity.ofHolds (holds : Bool) : Validity := ⟨if holds then .valid else .invalid, none⟩

theorem runAvailability_enabledWhen (h : ∀ x ∈ xs, GivesBool ev x) :
    runAvailability ev .enabled (xs.map .enabledWhen) =
      Availability.ofHolds <$> xs.allM (truth ev) := by
  induction xs with
  | nil => simp [runAvailability, Availability.ofHolds]
  | cons x xs ih =>
    simp only [List.mem_cons, forall_eq_or_imp] at h
    simp only [List.map_cons, runAvailability, List.allM_cons, map_bind, ih h.2]
    rw [← h.1.expect_eq "availability condition", bind_assoc]
    refine bind_congr fun v => bind_congr fun holds => ?_
    cases holds with
    | true => rfl
    | false => exact (map_pure Availability.ofHolds false).symm

theorem runValidation_require (h : ∀ x ∈ xs, GivesBool ev x) :
    runValidation ev (pure ⟨.valid, none⟩) (xs.map (.require · none)) =
      Validity.ofHolds <$> xs.allM (truth ev) := by
  induction xs with
  | nil => simp [runValidation, Validity.ofHolds]
  | cons x xs ih =>
    simp only [List.mem_cons, forall_eq_or_imp] at h
    simp only [List.map_cons, runValidation, List.allM_cons, map_bind, ih h.2]
    change ev x >>= _ = _
    rw [h.1, bind_map_left]
    refine bind_congr fun holds => ?_
    cases holds with
    | true => exact pure_bind (ValidationAction.next, none) _
    | false =>
      refine (pure_bind (ValidationAction.stop Verdict.invalid none, none) _).trans ?_
      exact (pure_bind none _).trans (map_pure Validity.ofHolds false).symm

end Lawful

end Truth

/-! ## Evaluations of logic -/

/-- Evaluations with some fuel: operations of truth values give such, and logic is the
short-circuit logic of lists with operands that are evaluated with less fuel. -/
structure EvaluatesLogic [Interruptible m] (ev : Nat → Operation → m Value) : Prop where
  givesBool (fuel : Nat) {op : Operation} (h : op.kind = .bool) : GivesBool (ev fuel) op
  andAlso (fuel : Nat) (xs : List Operation) :
    ev (fuel + 1) (.andAlso xs) = Value.bool <$> xs.allM (truth (ev fuel))
  orElse (fuel : Nat) (xs : List Operation) :
    ev (fuel + 1) (.orElse xs) = Value.bool <$> xs.anyM (truth (ev fuel))
  not (fuel : Nat) {op : Operation} (h : op.kind = .bool) :
    ev (fuel + 1) (.not op) = Value.bool <$> (Bool.not <$> truth (ev fuel) op)

namespace EvaluatesLogic

variable [Interruptible m] [LawfulMonad m] {ev : Nat → Operation → m Value}
  (hev : EvaluatesLogic ev) {xs : List Operation} (hxs : ∀ x ∈ xs, x.kind = .bool)
include hev

theorem truth_andAlso (fuel : Nat) (xs : List Operation) :
    truth (ev (fuel + 1)) (.andAlso xs) = xs.allM (truth (ev fuel)) :=
  truth_eq_of_eq (hev.andAlso fuel xs)

theorem truth_orElse (fuel : Nat) (xs : List Operation) :
    truth (ev (fuel + 1)) (.orElse xs) = xs.anyM (truth (ev fuel)) :=
  truth_eq_of_eq (hev.orElse fuel xs)

theorem truth_not (fuel : Nat) {op : Operation} (h : op.kind = .bool) :
    truth (ev (fuel + 1)) (.not op) = Bool.not <$> truth (ev fuel) op :=
  truth_eq_of_eq (hev.not fuel h)

theorem andAlso_append (fuel : Nat) (xs ys : List Operation) :
    ev (fuel + 1) (.andAlso (xs ++ ys)) = ev (fuel + 2) (.andAlso [.andAlso xs, .andAlso ys]) := by
  have pair : [.andAlso xs, .andAlso ys] = [Operation.andAlso xs] ++ [.andAlso ys] := rfl
  rw [hev.andAlso, hev.andAlso, pair, allM_append, allM_append, allM_singleton, allM_singleton,
    hev.truth_andAlso, hev.truth_andAlso]

theorem orElse_append (fuel : Nat) (xs ys : List Operation) :
    ev (fuel + 1) (.orElse (xs ++ ys)) = ev (fuel + 2) (.orElse [.orElse xs, .orElse ys]) := by
  have pair : [.orElse xs, .orElse ys] = [Operation.orElse xs] ++ [.orElse ys] := rfl
  rw [hev.orElse, hev.orElse, pair, anyM_append, anyM_append, anyM_singleton, anyM_singleton,
    hev.truth_orElse, hev.truth_orElse]

include hxs

theorem not_andAlso (fuel : Nat) :
    ev (fuel + 2) (.not (.andAlso xs)) = ev (fuel + 2) (.orElse (xs.map .not)) := by
  rw [hev.not (fuel + 1) rfl, hev.orElse, hev.truth_andAlso, not_allM,
    anyM_map _ fun x hx => hev.truth_not fuel (hxs x hx)]

theorem not_orElse (fuel : Nat) :
    ev (fuel + 2) (.not (.orElse xs)) = ev (fuel + 2) (.andAlso (xs.map .not)) := by
  rw [hev.not (fuel + 1) rfl, hev.andAlso, hev.truth_orElse, not_anyM,
    allM_map _ fun x hx => hev.truth_not fuel (hxs x hx)]

/-- A chain that enables a cell when all conditions hold. -/
theorem checkChain_eq (fuel : Nat) {chain : AvailabilityRule}
    (hchain : AvailabilityChain.ofSteps (xs.map .enabledWhen) .enabled = .ok chain) :
    checkChain (ev fuel) chain = Availability.ofHolds <$> xs.allM (truth (ev fuel)) := by
  rw [← runAvailability_enabledWhen fun x hx => hev.givesBool fuel (hxs x hx)]
  cases xs <;> cases hchain
  rfl

/-- A chain that finds a cell valid when all conditions hold. -/
theorem validateChain_eq (fuel : Nat) {chain : ValidationRule}
    (hchain : ValidationChain.ofSteps (xs.map (.require · none)) .valid none = .ok chain) :
    validateChain (ev fuel) chain =
      Eval.rescue (Validity.ofHolds <$> xs.allM (truth (ev fuel))) signalVerdict := by
  have hend : (do return ⟨.valid, ← messageText (ev fuel) none none⟩ : m Validity) =
      pure ⟨.valid, none⟩ := pure_bind none _
  rw [← runValidation_require fun x hx => hev.givesBool fuel (hxs x hx), ← hend]
  cases xs <;> cases hchain
  rfl

end EvaluatesLogic

/-! ## Protocols of logic -/

section Protocols
variable [Interruptible m]

theorem Kind.check_bool (v : Value) (context : String) :
    Kind.bool.check v context = (expectBool v context).map .bool := by
  cases v <;> rfl

theorem checked_bool [LawfulMonad m] {op : Operation} (h : op.kind = .bool) (x : m Bool) :
    op.checked (Value.bool <$> x) = Value.bool <$> x := by
  rw [Operation.checked, h, bind_map_left, map_eq_pure_bind]
  rfl

variable [LawfulInterruptible m] {chain : ProtocolChain σ}

theorem map_throw (f : α → β) (i : Interrupt) : f <$> (throw i : m α) = throw i := by
  rw [map_eq_pure_bind, LawfulInterruptible.throw_bind]

theorem liftM_map (f : α → β) (x : Except EvaluationError α) :
    (liftM (x.map f) : m β) = f <$> liftM x := by
  cases x with
  | ok a => exact (map_pure f a).symm
  | error e => exact (map_throw f (.error e)).symm

namespace ProtocolChain

/-- The chain finds the built-in protocols of logic. -/
def HasLogic (chain : ProtocolChain σ) : Prop :=
  ∀ tag ∈ [OperationTag.andAlso, .orElse, .not], chain.lookup ⟨tag, .bool⟩ = some (.ofTag tag)

theorem hasLogic_withBuiltins {kinds : List Kind} (h : .bool ∈ kinds) :
    (withBuiltins [] kinds : ProtocolChain σ).HasLogic := by
  intro tag htag
  obtain ⟨entry, hentry, hmem⟩ : ∃ entry ∈ builtinProtocols (σ := σ) .bool, tag ∈ entry.1 := by
    simp only [List.mem_cons, List.not_mem_nil, or_false] at htag
    rcases htag with rfl | rfl | rfl
    · exact ⟨_, List.mem_append_right _ (.tail _ (.head _)), .head _⟩
    · exact ⟨_, List.mem_append_right _ (.tail _ (.head _)), .tail _ (.head _)⟩
    · exact ⟨_, List.mem_append_right _ (.tail _ (.tail _ (.head _))), .head _⟩
  obtain ⟨protocol, hprotocol⟩ := Option.isSome_iff_exists.1 (knows_withBuiltins h hentry hmem)
  rw [hprotocol, isBuiltin_withBuiltins kinds _ _ hprotocol]

theorem dispatch_eq_of_lookup {op : Operation} {protocol : Protocol σ}
    (h : chain.lookup (.of op) = some protocol) (evaluate : Protocol σ → m Value) :
    chain.dispatch op evaluate = op.checked (evaluate protocol) := by
  rw [dispatch, resolve, h]
  exact pure_bind _ _

theorem dispatch_bool {op : Operation} (h : op.kind = .bool) (evaluate : Protocol σ → m Value) :
    chain.dispatch op evaluate = Value.bool <$> (do
      let protocol ← chain.resolve (.of op)
      expectBool (← evaluate protocol) op.tag.display) := by
  simp only [dispatch, Operation.checked, h, Kind.check_bool, map_bind, liftM_map]

section Evaluations
variable {cx : Context} {ev : Nat → Operation → m Value}
  (evaluate : Nat → Protocol σ → Operation → m Value) (access : Nat → Access m)
  (hzero : ∀ op, ev 0 op = Eval.outOfFuel)
  (hsucc : ∀ fuel op, ev (fuel + 1) op = chain.dispatch op (evaluate fuel · op))
include hzero hsucc

theorem givesBool_of_dispatch (fuel : Nat) {op : Operation} (h : op.kind = .bool) :
    GivesBool (ev fuel) op := by
  cases fuel with
  | zero => exact .of_eq ((hzero op).trans (map_throw Value.bool .outOfFuel).symm)
  | succ fuel => exact .of_eq ((hsucc fuel op).trans (dispatch_bool h _))

/-- Evaluations that dispatch to the rules of logic, with operands that are evaluated the same way,
follow these rules. -/
theorem HasLogic.evaluates (hlogic : chain.HasLogic)
    (hbuiltin : ∀ fuel tag op,
      evaluate fuel (.ofTag tag) op = BuiltinRule.ofTag tag (access fuel) cx op)
    (hoperands : ∀ fuel, (access fuel).evaluate cx = ev fuel) : EvaluatesLogic ev where
  givesBool fuel _ h := givesBool_of_dispatch evaluate hzero hsucc fuel h
  andAlso fuel xs := by
    rw [hsucc, dispatch_eq_of_lookup (hlogic .andAlso (by simp)), hbuiltin]
    change Operation.checked _ (BuiltinRule.decideBy _ false xs) = _
    rw [hoperands, decideBy_false, checked_bool rfl]
  orElse fuel xs := by
    rw [hsucc, dispatch_eq_of_lookup (hlogic .orElse (by simp)), hbuiltin]
    change Operation.checked _ (BuiltinRule.decideBy _ true xs) = _
    rw [hoperands, decideBy_true, checked_bool rfl]
  not fuel op h := by
    have hop := givesBool_of_dispatch evaluate hzero hsucc fuel h
    have hrule : BuiltinRule.ofTag .not (access fuel) cx (.not op) =
        Value.bool <$> (Bool.not <$> truth (ev fuel) op) := by
      rw [← hop.expect_eq "not operand", ← hoperands]
      simp only [BuiltinRule.ofTag, BuiltinRule.not, map_eq_pure_bind, bind_assoc, pure_bind]
    rw [hsucc, dispatch_eq_of_lookup (hlogic .not (by simp)), hbuiltin]
    exact (congrArg _ hrule).trans (checked_bool rfl _)

end Evaluations

theorem HasLogic.run_evaluates (hlogic : chain.HasLogic) (cx : Context) :
    EvaluatesLogic fun fuel => (chain.evaluator fuel).run cx :=
  hlogic.evaluates (fun fuel protocol => protocol.run (chain.evaluator fuel) cx)
    (fun fuel => .recorded (chain.evaluator fuel).run) (fun _ => rfl) (fun _ _ => rfl)
    (fun _ _ _ => rfl) fun _ => rfl

theorem HasLogic.task_evaluates (hlogic : chain.HasLogic) (cx : Context) :
    EvaluatesLogic fun fuel => (chain.evaluator fuel).task cx :=
  hlogic.evaluates (fun fuel protocol => protocol.task (chain.evaluator fuel) cx)
    (fun fuel => .recorded (chain.evaluator fuel).task) (fun _ => rfl) (fun _ _ => rfl)
    (fun _ _ _ => rfl) fun _ => rfl

end ProtocolChain

end Protocols

/-! ## Laws of runs -/

/-- What the chains that ask for some conditions come to, given the result of the conjunction of
these conditions: an availability chain that enables the cell when they hold, and a validation chain
that requires them. -/
inductive ConditionsDecide :
    Except Interrupt Value → Except Interrupt Availability → Except Interrupt Validity → Prop
  | hold : ConditionsDecide (.ok (.bool true)) (.ok .enabled) (.ok ⟨.valid, none⟩)
  | fail : ConditionsDecide (.ok (.bool false)) (.ok .disabled) (.ok ⟨.invalid, none⟩)
  | aborted {message : Option String} : ConditionsDecide (.error (.error (.aborted message)))
      (.error (.error (.aborted message))) (.ok ⟨.aborted, none⟩)
  | notApplicable {message : Option String} :
      ConditionsDecide (.error (.error (.notApplicable message)))
        (.error (.error (.notApplicable message))) (.ok ⟨.notApplicable, none⟩)
  | error {e : EvaluationError} (h : e.isSignal = false) :
      ConditionsDecide (.error (.error e)) (.error (.error e)) (.error (.error e))
  | outOfFuel : ConditionsDecide (.error .outOfFuel) (.error .outOfFuel) (.error .outOfFuel)

theorem ConditionsDecide.of_result (r : Except Interrupt Bool) :
    ConditionsDecide (r.map .bool) (r.map .ofHolds)
      ((r.map .ofHolds).tryCatch Interrupt.verdict) := by
  rcases r with (e | _) | holds
  · cases e with
    | aborted => exact .aborted
    | notApplicable => exact .notApplicable
    | _ => exact .error rfl
  · exact .outOfFuel
  · cases holds
    · exact .fail
    · exact .hold

/-- The laws of short-circuit logic, for runs with some fuel. Both sides of a law record the same,
and a level of operations takes one unit of fuel. -/
structure ShortCircuits (run : Nat → Operation → World σ → Except Interrupt Value × World σ)
    (check : Nat → AvailabilityRule → World σ → Except Interrupt Availability × World σ)
    (validate : Nat → ValidationRule → World σ → Except Interrupt Validity × World σ)
    (xs ys : List Operation) : Prop where
  not_andAlso (fuel : Nat) :
    run (fuel + 2) (.not (.andAlso xs)) = run (fuel + 2) (.orElse (xs.map .not))
  not_orElse (fuel : Nat) :
    run (fuel + 2) (.not (.orElse xs)) = run (fuel + 2) (.andAlso (xs.map .not))
  andAlso_append (fuel : Nat) :
    run (fuel + 1) (.andAlso (xs ++ ys)) = run (fuel + 2) (.andAlso [.andAlso xs, .andAlso ys])
  orElse_append (fuel : Nat) :
    run (fuel + 1) (.orElse (xs ++ ys)) = run (fuel + 2) (.orElse [.orElse xs, .orElse ys])
  chains (h : xs ≠ []) : ∃ available valid,
    AvailabilityChain.ofSteps (xs.map .enabledWhen) .enabled = .ok available ∧
      ValidationChain.ofSteps (xs.map (.require · none)) .valid none = .ok valid ∧
        ∀ fuel w, ∃ r a v w', run (fuel + 1) (.andAlso xs) w = (r, w') ∧
          check fuel available w = (a, w') ∧ validate fuel valid w = (v, w') ∧
            ConditionsDecide r a v

theorem EvaluatesLogic.shortCircuits [Interruptible m] [LawfulMonad m]
    {ev : Nat → Operation → m Value} (hev : EvaluatesLogic ev) {xs : List Operation}
    (hxs : ∀ x ∈ xs, x.kind = .bool) (ys : List Operation)
    (run : ∀ {α : Type}, m α → World σ → Except Interrupt α × World σ)
    (hmap : ∀ {α β : Type} (f : α → β) (x : m α) (w : World σ),
      run (f <$> x) w = ((run x w).1.map f, (run x w).2))
    (hrescue : ∀ (x : m Validity) (w : World σ), run (Eval.rescue x signalVerdict) w =
      ((run x w).1.tryCatch Interrupt.verdict, (run x w).2)) :
    ShortCircuits (fun fuel op => run (ev fuel op))
      (fun fuel rule => run (checkChain (ev fuel) rule))
      (fun fuel rule => run (validateChain (ev fuel) rule)) xs ys where
  not_andAlso fuel := congrArg run (hev.not_andAlso hxs fuel)
  not_orElse fuel := congrArg run (hev.not_orElse hxs fuel)
  andAlso_append fuel := congrArg run (hev.andAlso_append fuel xs ys)
  orElse_append fuel := congrArg run (hev.orElse_append fuel xs ys)
  chains h := by
    obtain ⟨x, rest, rfl⟩ := List.exists_cons_of_ne_nil h
    refine ⟨_, _, rfl, rfl, fun fuel w => ?_⟩
    simp only [hev.andAlso, hev.checkChain_eq hxs fuel rfl, hev.validateChain_eq hxs fuel rfl, hmap,
      hrescue]
    exact ⟨_, _, _, _, rfl, rfl, rfl, .of_result _⟩

theorem Task.run_map (f : α → β) (x : Task σ α) (w : World σ) :
    (f <$> x).run w = ((x.run w).1.map f, (x.run w).2) := by
  rw [map_eq_pure_bind, run_bind]
  rcases x.run w with ⟨_ | _, _⟩ <;> rfl

namespace Eval

theorem run_map (f : α → β) (x : Eval σ α) (w : World σ) :
    (f <$> x).run w = ((x.run w).1.map f, (x.run w).2) := by
  rw [map_eq_pure_bind, run_bind]
  rcases x.run w with ⟨_ | _, _⟩ <;> rfl

theorem run_rescue_signalVerdict (x : Eval σ Validity) (w : World σ) :
    (rescue x signalVerdict).run w = ((x.run w).1.tryCatch Interrupt.verdict, (x.run w).2) := by
  have hstep : Task.agreement.Rel (rescue (.ofEval x) signalVerdict) (rescue x signalVerdict) :=
    Task.agreement.rescue (Task.agreement_ofEval x) (fun _ => False.elim) fun _ =>
      Correspondence.signalVerdict
  exact (hstep w).symm.trans (Task.run_rescue_signalVerdict rfl)

end Eval

/-- Where the protocols of logic are the built-in ones, logic and chains of conditions short-circuit
alike, both when evaluated in one go and as a task. -/
theorem ProtocolChain.logic_short_circuits (chain : ProtocolChain σ) (hlogic : chain.HasLogic)
    (cx : Context) (xs ys : List Operation) (hxs : ∀ x ∈ xs, x.kind = .bool) :
    ShortCircuits (fun fuel op => ((chain.evaluator fuel).run cx op).run)
        (fun fuel rule => (checkChain ((chain.evaluator fuel).run cx) rule).run)
        (fun fuel rule => (validateChain ((chain.evaluator fuel).run cx) rule).run) xs ys ∧
      ShortCircuits (fun fuel op => ((chain.evaluator fuel).task cx op).run)
        (fun fuel rule => (checkChain ((chain.evaluator fuel).task cx) rule).run)
        (fun fuel rule => (validateChain ((chain.evaluator fuel).task cx) rule).run) xs ys :=
  ⟨(hlogic.run_evaluates cx).shortCircuits hxs ys Eval.run Eval.run_map
      Eval.run_rescue_signalVerdict,
    (hlogic.task_evaluates cx).shortCircuits hxs ys Task.run Task.run_map
      fun _ _ => Task.run_rescue_signalVerdict rfl⟩

namespace Aborting

/-- Conditions of which the second one aborts. -/
def conditions : List Operation :=
  [.const (.bool true) .bool, .abort (some "stop") .bool, .const (.bool false) .bool]

def chain : ProtocolChain Unit := .withBuiltins [] Kind.standard

def context : Context := chain.context ⟨"empty", []⟩ (.build ⟨"empty", []⟩) ⟨0, 0⟩ .execution

/-- The abort is found by both sides of a law, and decides both chains. -/
theorem logic_short_circuits_aborting :
    ShortCircuits (fun fuel op => ((chain.evaluator fuel).run context op).run)
        (fun fuel rule => (checkChain ((chain.evaluator fuel).run context) rule).run)
        (fun fuel rule => (validateChain ((chain.evaluator fuel).run context) rule).run)
        conditions conditions ∧
      (((chain.evaluator 2).run context (.andAlso conditions)).run ⟨.empty, ()⟩).1 =
        .error (.error (.aborted (some "stop"))) :=
  ⟨(chain.logic_short_circuits (ProtocolChain.hasLogic_withBuiltins (by decide)) context conditions
    conditions (by decide)).1, rfl⟩

end Aborting

end ReportCalc
