import ReportCalc.Proofs.Dispatch.Tables
import ReportCalc.Proofs.Evaluation.Errors

/-!
# Correspondences between evaluations

The rules of the built-in operations are written for any monad that can be interrupted. A
`Correspondence` relates the computations of two such monads in a way that is respected by results,
errors, sequencing and the handling of errors. Then every rule, run in both monads, gives related
computations as soon as the evaluations of its operands and its accesses to other cells are related
(`Correspondence.rule`). Facts about all operations are instances: one relation, the errors that it
admits, and the three ways in which an evaluation gets at another cell.
-/

namespace ReportCalc

variable {m n : Type → Type} [Interruptible m] [Interruptible n] {α β : Type}

/-! ## Related computations -/

/-- Whether the error is a signal of the author of a report, of which a chain makes a verdict. -/
def EvaluationError.isSignal : EvaluationError → Bool
  | .aborted _ | .notApplicable _ => true
  | _ => false

/-- Where no error escapes, no signal does. -/
theorem EvaluationError.isSignal_of_false {e : EvaluationError} (h : False) :
    e.isSignal = false := h.elim

theorem EvaluationError.isSignal_of_isFatal {e : EvaluationError} (h : e.isFatal = true) :
    e.isSignal = false := by
  cases e <;> first | rfl | cases h

/-- A relation between the computations of two monads that their steps respect. The computations
fail with errors that are admitted, of which some escape: whatever handles errors hands these on. -/
structure Correspondence (m n : Type → Type) [Interruptible m] [Interruptible n] where
  Rel : ∀ {α : Type}, m α → n α → Prop
  Admits : EvaluationError → Prop
  Escapes : EvaluationError → Prop
  not_signal : ∀ {e : EvaluationError}, Escapes e → e.isSignal = false
  pure : ∀ {α : Type} (a : α), Rel (pure a) (pure a)
  fail : ∀ {α : Type} {e : EvaluationError}, Admits e → Rel (α := α) (Eval.fail e) (Eval.fail e)
  bind : ∀ {α β : Type} {x : m α} {y : n α} {f : α → m β} {g : α → n β},
    Rel x y → (∀ a, Rel (f a) (g a)) → Rel (x >>= f) (y >>= g)
  lift : ∀ {α β : Type} {x : Except EvaluationError α} {f : α → m β} {g : α → n β},
    (∀ e, x = .error e → Admits e) → (∀ a, x = .ok a → Rel (f a) (g a)) →
      Rel (liftM x >>= f) (liftM x >>= g)
  rescue : ∀ {α : Type} {x : m α} {y : n α} {f : EvaluationError → m α} {g : EvaluationError → n α},
    Rel x y → (∀ e, Escapes e → f e = Eval.fail e ∧ g e = Eval.fail e) →
      (∀ e, Admits e → Rel (f e) (g e)) → Rel (Eval.rescue x f) (Eval.rescue y g)

namespace Correspondence

variable (R : Correspondence m n)

theorem ofExcept {x : Except EvaluationError α} (h : ∀ e, x = .error e → R.Admits e) :
    R.Rel (liftM x : m α) (liftM x : n α) := by
  cases x with
  | ok a => exact R.pure a
  | error e => exact R.fail (h e rfl)

theorem completedOr {completed : α → β} {failed : String → β} {x : m α} {y : n α}
    (hcatches : ∀ e, R.Escapes e → e.isFatal = true) (h : R.Rel x y) :
    R.Rel (Eval.completedOr completed failed x) (Eval.completedOr completed failed y) := by
  refine R.rescue (R.bind h fun a => R.pure _) (fun e he => ?_) fun e he => ?_
  · exact ⟨if_pos (hcatches e he), if_pos (hcatches e he)⟩
  · split
    · exact R.fail he
    · exact R.pure _

theorem mapM {f : α → m β} {g : α → n β} {xs : List α} (h : ∀ x ∈ xs, R.Rel (f x) (g x)) :
    R.Rel (xs.mapM f) (xs.mapM g) := by
  suffices ∀ done, R.Rel (List.mapM.loop f xs done) (List.mapM.loop g xs done) from this []
  induction xs with
  | nil => exact fun done => R.pure _
  | cons x xs ih =>
    intro done
    refine R.bind (h x (List.mem_cons_self ..)) fun b => ?_
    exact ih (fun y hy => h y (List.mem_cons_of_mem _ hy)) _

theorem forM {f : α → m Unit} {g : α → n Unit} {xs : List α}
    (h : ∀ x ∈ xs, R.Rel (f x) (g x)) : R.Rel (xs.forM f) (xs.forM g) := by
  induction xs with
  | nil => exact R.pure _
  | cons x xs ih =>
    refine R.bind (h x (List.mem_cons_self ..)) fun _ => ?_
    exact ih fun y hy => h y (List.mem_cons_of_mem _ hy)

/-- The errors that rules raise while they compute are admitted. -/
def AdmitsLocal : Prop := ∀ e : EvaluationError, e.IsLocal → R.Admits e

/-- The errors that rules raise while they compute are admitted, and what escapes is not recorded
as an outcome. -/
structure RecordsLocal : Prop where
  admits : R.AdmitsLocal
  catches : ∀ e, R.Escapes e → e.isFatal = true

variable {R}

theorem AdmitsLocal.ofExcept (hlocal : R.AdmitsLocal) {x : Except EvaluationError α}
    (h : FailsLocally x) : R.Rel (liftM x : m α) (liftM x : n α) :=
  R.ofExcept fun e he => hlocal e (h e he)

theorem AdmitsLocal.lift (hlocal : R.AdmitsLocal) {x : Except EvaluationError α} {f : α → m β}
    {g : α → n β} (h : FailsLocally x) (hf : ∀ a, x = .ok a → R.Rel (f a) (g a)) :
    R.Rel (liftM x >>= f) (liftM x >>= g) :=
  R.lift (fun e he => hlocal e (h e he)) hf

/-! ### Chains -/

section Chains
variable (hlocal : R.AdmitsLocal) {ev : Operation → m Value} {ev' : Operation → n Value}
include hlocal

theorem messageText {message : Option Operation} {fallback : Option String}
    (h : ∀ op ∈ message.toList, R.Rel (ev op) (ev' op)) :
    R.Rel (messageText ev message fallback) (messageText ev' message fallback) := by
  cases message with
  | none => exact R.pure _
  | some op => exact R.bind (h op (by simp)) fun v => hlocal.ofExcept (.expectText v _)

/-- The induction is on the steps; what is left after them is the end of the chain. -/
theorem runValidation {atEnd : m Validity} {atEnd' : n Validity}
    {steps : List (ValidationStep Operation)}
    (h : ∀ op ∈ steps.flatMap Operation.ofStep, R.Rel (ev op) (ev' op))
    (hend : R.Rel atEnd atEnd') :
    R.Rel (runValidation ev atEnd steps) (runValidation ev' atEnd' steps) := by
  induction steps with
  | nil => exact hend
  | cons step rest ih =>
    simp only [List.flatMap_cons, List.mem_append] at h
    refine R.bind (h _ (.inl step.condition_mem_ofStep)) fun v => ?_
    refine hlocal.lift (.decide step v) fun chosen hchosen => ?_
    rcases chosen with ⟨_ | ⟨verdict, message⟩, fallback⟩
    · exact ih fun op hop => h op (.inr hop)
    · refine R.bind (messageText hlocal fun op hop => ?_) fun text => R.pure _
      exact h op (.inl (step.message_mem_ofStep hchosen hop))

omit hlocal in
theorem signalVerdict_eq_fail {e : EvaluationError} (h : e.isSignal = false) :
    (ReportCalc.signalVerdict e : m Validity) = Eval.fail e := by
  cases e <;> first | rfl | cases h

omit hlocal in
theorem signalVerdict {e : EvaluationError} (h : R.Admits e) :
    R.Rel (ReportCalc.signalVerdict e : m Validity) (ReportCalc.signalVerdict e : n Validity) := by
  unfold ReportCalc.signalVerdict
  split
  · exact R.pure _
  · exact R.pure _
  · exact R.fail h

theorem validateChain {chain : ValidationRule}
    (h : ∀ op ∈ (Operation.validate chain).operands, R.Rel (ev op) (ev' op)) :
    R.Rel (validateChain ev chain) (validateChain ev' chain) := by
  simp only [Operation.operands, List.mem_append] at h
  refine R.rescue (runValidation hlocal (fun op hop => h op (.inl hop)) ?_) (fun e he => ?_)
    fun _ => signalVerdict
  · exact R.bind (messageText hlocal fun op hop => h op (.inr hop)) fun text => R.pure _
  · exact ⟨signalVerdict_eq_fail (R.not_signal he), signalVerdict_eq_fail (R.not_signal he)⟩

theorem runAvailability {atEnd : Availability} {steps : List (AvailabilityStep Operation)}
    (h : ∀ step ∈ steps, R.Rel (ev step.condition) (ev' step.condition)) :
    R.Rel (runAvailability ev atEnd steps) (runAvailability ev' atEnd steps) := by
  induction steps with
  | nil => exact R.pure _
  | cons step rest ih =>
    simp only [List.mem_cons, forall_eq_or_imp] at h
    refine R.bind h.1 fun v => R.bind (hlocal.ofExcept (.expectBool v _)) fun holds => ?_
    cases step.action holds with
    | next => exact ih h.2
    | stop availability => exact R.pure _

theorem checkChain {chain : AvailabilityRule}
    (h : ∀ op ∈ (Operation.checkAvailability chain).operands, R.Rel (ev op) (ev' op)) :
    R.Rel (checkChain ev chain) (checkChain ev' chain) :=
  runAvailability hlocal fun _ hstep => h _ (List.mem_map_of_mem hstep)

end Chains

/-! ### Access to cells -/

section Cells
variable (hlocal : R.AdmitsLocal) {access : Access m} {access' : Access n} {cx : Context}
  {locator : Locator} (hlocator : ∀ e, cx.resolve locator = .error e → R.Admits e)
include hlocal hlocator

theorem cellValue {kind : Kind}
    (h : ∀ target c, cx.resolve locator = .ok target → target.cell = .operation c →
      R.Rel (access.execute cx target) (access'.execute cx target)) :
    R.Rel (cellValue access cx locator kind) (cellValue access' cx locator kind) := by
  refine R.lift hlocator fun target htarget => ?_
  have check (v : Value) := hlocal.ofExcept (.check kind v ("value of cell " ++ target.label))
  cases hcell : target.cell with
  | operation c =>
    refine R.bind (h target c htarget hcell) fun outcome => ?_
    exact hlocal.lift (.succeededValue target outcome) fun v _ => check v
  | _ => exact hlocal.lift (.storedValue target kind) fun v _ => check v

omit hlocal in
theorem hasValue
    (h : ∀ target c, cx.resolve locator = .ok target → target.cell = .operation c →
      R.Rel (access.execute cx target) (access'.execute cx target)) :
    R.Rel (hasValue access cx locator) (hasValue access' cx locator) := by
  refine R.lift hlocator fun target htarget => ?_
  cases hcell : target.cell with
  | operation c => exact R.bind (h target c htarget hcell) fun outcome => R.pure _
  | _ => exact R.pure _

theorem validityOf
    (h : ∀ target, cx.resolve locator = .ok target →
      R.Rel (access.validate cx target) (access'.validate cx target)) :
    R.Rel (validityOf access cx locator) (validityOf access' cx locator) := by
  refine R.lift hlocator fun target htarget => R.bind (h target htarget) fun event => ?_
  cases event.content with
  | completed v => exact R.pure _
  | _ => exact R.fail (hlocal _ (.noVerdict ..))

theorem availabilityOf
    (h : ∀ target, cx.resolve locator = .ok target →
      R.Rel (access.check cx target) (access'.check cx target)) :
    R.Rel (availabilityOf access cx locator) (availabilityOf access' cx locator) := by
  refine R.lift hlocator fun target htarget => R.bind (h target htarget) fun event => ?_
  cases event.content with
  | completed a => exact R.pure _
  | _ => exact R.fail (hlocal _ (.noVerdict ..))

end Cells

/-- The accesses that a reference may lead to are related: an execution of operation cells only,
and the verdicts only in the phases in which they may be asked for. -/
def Reads (R : Correspondence m n) (access : Access m) (access' : Access n) (cx : Context)
    (target : Resolved) : Phase → Prop
  | .execution => ∀ c, target.cell = .operation c →
      R.Rel (access.execute cx target) (access'.execute cx target)
  | .validation => cx.phase ≠ .execution →
      R.Rel (access.validate cx target) (access'.validate cx target)
  | .availability => cx.phase = .availability →
      R.Rel (access.check cx target) (access'.check cx target)

/-! ### Operations -/

section Operations
variable (hlocal : R.AdmitsLocal) {access : Access m} {access' : Access n} {cx : Context}
include hlocal

theorem decideBy {ev : Operation → m Value} {ev' : Operation → n Value} {decisive : Bool}
    {operands : List Operation} (h : ∀ op ∈ operands, R.Rel (ev op) (ev' op)) :
    R.Rel (BuiltinRule.decideBy ev decisive operands)
      (BuiltinRule.decideBy ev' decisive operands) := by
  induction operands with
  | nil => exact R.pure _
  | cons operand rest ih =>
    simp only [List.mem_cons, forall_eq_or_imp] at h
    refine R.bind h.1 fun v => R.bind (hlocal.ofExcept (.expectBool v _)) fun holds => ?_
    split
    · exact R.pure _
    · exact ih h.2

theorem foldOperands {ev : Operation → m Value} {ev' : Operation → n Value}
    {arithmetic : Arithmetic} {operands : List Operation} {kind : Kind}
    (h : ∀ op ∈ operands, R.Rel (ev op) (ev' op)) :
    R.Rel (BuiltinRule.foldOperands ev arithmetic operands kind)
      (BuiltinRule.foldOperands ev' arithmetic operands kind) :=
  R.bind (R.mapM h) fun values => hlocal.ofExcept (.fold arithmetic values kind)

theorem combineOperands {ev : Operation → m Value} {ev' : Operation → n Value} {label : String}
    {arithmetic : Arithmetic} {left right : Operation} {kind : Kind}
    (hleft : R.Rel (ev left) (ev' left)) (hright : R.Rel (ev right) (ev' right)) :
    R.Rel (BuiltinRule.combineOperands ev label arithmetic left right kind)
      (BuiltinRule.combineOperands ev' label arithmetic left right kind) := by
  refine R.bind hleft fun l => R.bind hright fun r => ?_
  split
  · exact R.fail (hlocal _ ⟨rfl, nofun⟩)
  · exact hlocal.ofExcept (.binary arithmetic l r kind)

/-- The rule of an operation that refers to no other cell gives related computations when its
operands are related. The two may be evaluated for different cells of one label. -/
theorem ofOperands {cx' : Context} {op : Operation} (href : op.reference? = none)
    (hlabel : cx.currentLabel = cx'.currentLabel)
    (hoperands : ∀ x ∈ op.operands, R.Rel (access.evaluate cx x) (access'.evaluate cx' x)) :
    R.Rel (BuiltinRule.ofTag op.tag access cx op) (BuiltinRule.ofTag op.tag access' cx' op) := by
  cases op with
  | const => exact R.pure _
  | abort | notApplicable => exact R.fail (hlocal _ ⟨rfl, nofun⟩)
  | custom => exact R.fail (hlocal _ ⟨rfl, not_isRefusal_custom _ _⟩)
  | cellValue | hasValue | validity | availability => cases href
  | ifThenElse c t e kind =>
    simp only [Operation.operands, List.mem_cons, List.not_mem_nil, or_false, forall_eq_or_imp,
      forall_eq] at hoperands
    refine R.bind hoperands.1 fun v => R.bind (hlocal.ofExcept (.expectBool v _)) fun holds => ?_
    split
    · exact hoperands.2.1
    · exact hoperands.2.2
  | andAlso | orElse => exact decideBy hlocal hoperands
  | not a =>
    refine R.bind (hoperands a (by simp [Operation.operands])) fun v => ?_
    exact R.bind (hlocal.ofExcept (.expectBool v _)) fun holds => R.pure _
  | compare a comparison b =>
    refine R.bind (hoperands a (by simp [Operation.operands])) fun v => ?_
    refine R.bind (hoperands b (by simp [Operation.operands])) fun w => ?_
    exact R.bind (hlocal.ofExcept (.compare v w comparison)) fun holds => R.pure _
  | sum | multiply => exact foldOperands hlocal hoperands
  | subtract a b | divide a b =>
    simp only [BuiltinRule.ofTag, Operation.tag, BuiltinRule.arithmetic, hlabel]
    exact combineOperands hlocal (hoperands a (by simp [Operation.operands]))
      (hoperands b (by simp [Operation.operands]))
  | withMessage c message =>
    refine R.bind (hoperands c (by simp [Operation.operands])) fun v => ?_
    refine R.bind (hlocal.ofExcept (.expectBool v _)) fun holds => ?_
    cases message with
    | none => exact R.pure _
    | some message =>
      refine R.bind (hoperands message (by simp [Operation.operands])) fun v => ?_
      exact R.bind (hlocal.ofExcept (.expectText v _)) fun text => R.pure _
  | validate chain => exact R.bind (validateChain hlocal hoperands) fun v => R.pure _
  | checkAvailability chain => exact R.bind (checkChain hlocal hoperands) fun a => R.pure _

omit hlocal in
/-- A rule gives related computations when its operands and the accesses it makes are related, and
its errors are admitted. -/
theorem rule {op : Operation} (herror : ∀ e, op.MayRaise cx e → R.Admits e)
    (hoperands : ∀ x ∈ op.operands, R.Rel (access.evaluate cx x) (access'.evaluate cx x))
    (hreads : ∀ ref ∈ op.reference?, ∀ target, cx.resolve ref.locator = .ok target →
      R.Reads access access' cx target ref.phase) :
    R.Rel (BuiltinRule.ofTag op.tag access cx op) (BuiltinRule.ofTag op.tag access' cx op) := by
  have hlocal : R.AdmitsLocal := fun e he => herror e (.recorded he)
  have hlocator : ∀ ref ∈ op.reference?, ∀ e, cx.resolve ref.locator = .error e → R.Admits e :=
    fun _ href e he => herror e (.locator href he)
  have hphase (allowed : List Phase) (required : String) (e : EvaluationError)
      (he : cx.requirePhase op allowed required = .error e) : R.Admits e := by
    unfold Context.requirePhase at he
    split at he <;> cases he
    exact herror _ (.phase required)
  cases op with
  | cellValue locator kind =>
    exact cellValue hlocal (hlocator ⟨locator, .execution⟩ rfl) fun target c htarget =>
      hreads ⟨locator, .execution⟩ rfl target htarget c
  | hasValue locator =>
    refine R.bind (hasValue (hlocator ⟨locator, .execution⟩ rfl) fun target c htarget => ?_)
      fun b => R.pure _
    exact hreads ⟨locator, .execution⟩ rfl target htarget c
  | validity locator =>
    refine R.lift (hphase _ _) fun _ hallowed => R.bind (validityOf hlocal
      (hlocator ⟨locator, .validation⟩ rfl) fun target htarget => ?_) fun v => R.pure _
    refine hreads ⟨locator, .validation⟩ rfl target htarget fun hexecution => ?_
    simp [hexecution] at hallowed
  | availability locator =>
    refine R.lift (hphase _ _) fun _ hallowed => R.bind (availabilityOf hlocal
      (hlocator ⟨locator, .availability⟩ rfl) fun target htarget => ?_) fun a => R.pure _
    exact hreads ⟨locator, .availability⟩ rfl target htarget (by simpa using hallowed)
  | _ => exact ofOperands hlocal rfl rfl hoperands

/-- The check of the declared kind keeps computations related. -/
theorem checked {op : Operation} {x : m Value} {y : n Value} (h : R.Rel x y) :
    R.Rel (op.checked x) (op.checked y) :=
  R.bind h fun v => hlocal.ofExcept (.check op.kind v _)

/-- A chain gives related computations when the protocols that it finds do. -/
theorem dispatch {σ : Type} {chain : ProtocolChain σ} {op : Operation} {f : Protocol σ → m Value}
    {g : Protocol σ → n Value}
    (hnotFound : R.Admits (.protocolNotFound op.tag op.kind))
    (h : ∀ protocol, chain.lookup (.of op) = some protocol → R.Rel (f protocol) (g protocol)) :
    R.Rel (chain.dispatch op f) (chain.dispatch op g) := by
  have resolve : chain.resolve (.of op) =
      (chain.lookup (.of op)).elim (.error (.protocolNotFound op.tag op.kind)) .ok := by
    unfold ProtocolChain.resolve
    cases chain.lookup (.of op) <;> rfl
  unfold ProtocolChain.dispatch
  rw [resolve]
  refine R.lift (fun e he => ?_) fun protocol hprotocol => checked hlocal (h protocol ?_)
  · cases hlookup : chain.lookup (.of op) <;> rw [hlookup] at he <;> cases he
    exact hnotFound
  · cases hlookup : chain.lookup (.of op) <;> rw [hlookup] at hprotocol <;> cases hprotocol
    rfl

end Operations

end Correspondence

end ReportCalc
