import ReportCalc.Evaluation.Rules
import ReportCalc.Operation.Weight

/-!
# Operands and references

The evaluation of an operation evaluates its operands (`Operation.operands`), in the conditions and
messages of chains as well, and may itself refer to another cell (`Operation.reference?`). An
operation mentions the references that it or an operand makes, at any depth. Operands weigh less
than the operation that they belong to, which bounds how deep evaluations nest within a cell.
-/

namespace ReportCalc

/-- A locator in an operation, with the phase whose result of the cell is asked for. -/
structure Reference where
  locator : Locator
  phase : Phase

namespace Operation

/-- The operations that a message of a chain may hold. -/
def ofAction : ValidationAction Operation → List Operation
  | .next => []
  | .stop _ message => message.toList

/-- The operations in a step of a validation chain. -/
def ofStep : ValidationStep Operation → List Operation
  | .check c t e | .checkWithMessage c t e => c :: (ofAction t ++ ofAction e)

/-- The operations that the evaluation of an operation may evaluate on the same cell. -/
def operands : Operation → List Operation
  | .const .. | .cellValue .. | .hasValue _ | .validity _ | .availability _ | .abort ..
  | .notApplicable .. => []
  | .ifThenElse c t e _ => [c, t, e]
  | .andAlso xs | .orElse xs | .sum xs _ | .multiply xs _ | .custom _ _ xs _ => xs
  | .not a => [a]
  | .compare a _ b | .subtract a b _ | .divide a b _ => [a, b]
  | .withMessage c message => c :: message.toList
  | .validate chain => chain.steps.flatMap ofStep ++ chain.endMessage.toList
  | .checkAvailability chain => chain.steps.map (·.condition)

/-- The reference that an operation itself makes. -/
def reference? : Operation → Option Reference
  | .cellValue locator _ | .hasValue locator => some ⟨locator, .execution⟩
  | .validity locator => some ⟨locator, .validation⟩
  | .availability locator => some ⟨locator, .availability⟩
  | _ => none

end Operation

namespace ValidationStep

theorem condition_mem_ofStep (step : ValidationStep Operation) :
    step.condition ∈ Operation.ofStep step := by
  cases step <;> simp [Operation.ofStep, condition]

theorem action_mem_ofStep {step : ValidationStep Operation} {holds : Bool} {verdict : Verdict}
    {message : Option Operation} (h : step.action holds = .stop verdict message) {op : Operation}
    (hop : op ∈ message.toList) : op ∈ Operation.ofStep step := by
  cases step <;> cases holds <;> simp_all [action, Operation.ofStep, Operation.ofAction]

/-- The message of the action that a step decides for is one of its operations. -/
theorem message_mem_ofStep {step : ValidationStep Operation} {v : Value} {verdict : Verdict}
    {message : Option Operation} {fallback : Option String}
    (h : step.decide v = .ok (.stop verdict message, fallback)) {op : Operation}
    (hop : op ∈ message.toList) : op ∈ Operation.ofStep step := by
  cases step with
  | check =>
    simp only [decide] at h
    cases hv : expectBool v "validation condition" with
    | error e => simp [hv, bind, Except.bind] at h
    | ok holds =>
      simp only [hv, bind, Except.bind, pure, Except.pure, Except.ok.injEq, Prod.mk.injEq] at h
      exact action_mem_ofStep h.1 hop
  | checkWithMessage =>
    cases v <;> simp only [decide, reduceCtorEq, Except.ok.injEq, Prod.mk.injEq] at h
    exact action_mem_ofStep h.1 hop

end ValidationStep

namespace Operation

/-- The references that an operation makes, itself or in an operand. -/
inductive Mentions : Operation → Reference → Prop
  | reference {op : Operation} {ref : Reference} (h : op.reference? = some ref) : op.Mentions ref
  | operand {op x : Operation} {ref : Reference} (hx : x ∈ op.operands) (h : x.Mentions ref) :
      op.Mentions ref

/-- The operation itself, or an operand of it at any depth. -/
inductive Contains : Operation → Operation → Prop
  | refl (op : Operation) : op.Contains op
  | operand {op x y : Operation} (hx : x ∈ op.operands) (h : x.Contains y) : op.Contains y

section Contains
variable {op x y : Operation}

/-- An operand of what is contained is contained. The induction is on the way down to it. -/
theorem Contains.extend (h : op.Contains x) (hy : y ∈ x.operands) : op.Contains y := by
  induction h with
  | refl => exact .operand hy (.refl y)
  | operand hz _ ih => exact .operand hz (ih hy)

/-- What is mentioned by something contained is mentioned. -/
theorem Contains.mentions (h : op.Contains x) {ref : Reference} (href : x.Mentions ref) :
    op.Mentions ref := by
  induction h with
  | refl => exact href
  | operand hz _ ih => exact .operand hz (ih href)

end Contains

/-! ## Weights -/

theorem weight_pos (op : Operation) : 0 < op.weight := by
  cases op <;> simp [weight]

theorem weight_le_weightOfList {x : Operation} {xs : List Operation} (h : x ∈ xs) :
    x.weight ≤ weightOfList xs := by
  induction xs with
  | nil => cases h
  | cons y ys ih =>
    rw [weightOfList]
    rcases List.mem_cons.1 h with rfl | h
    · omega
    · have := ih h
      omega

theorem weight_le_weightOfOption {x : Operation} {o : Option Operation} (h : x ∈ o.toList) :
    x.weight ≤ weightOfOption o := by
  cases o with
  | none => cases h
  | some y =>
    cases List.mem_singleton.1 h
    exact Nat.le_refl _

theorem weight_le_weightOfAction {x : Operation} {action : ValidationAction Operation}
    (h : x ∈ ofAction action) : x.weight ≤ weightOfAction action := by
  cases action with
  | next => cases h
  | stop _ message => exact weight_le_weightOfOption h

theorem weight_le_weightOfStep {x : Operation} {step : ValidationStep Operation}
    (h : x ∈ ofStep step) : x.weight ≤ weightOfStep step := by
  cases step <;>
    simp only [ofStep, List.mem_cons, List.mem_append] at h <;>
    rcases h with rfl | h | h <;>
    simp only [weightOfStep]
  all_goals first
    | omega
    | have := weight_le_weightOfAction h
      omega

theorem weight_le_weightOfSteps {x : Operation} {steps : List (ValidationStep Operation)}
    (h : x ∈ steps.flatMap ofStep) : x.weight ≤ weightOfSteps steps := by
  induction steps with
  | nil => cases h
  | cons step rest ih =>
    rw [weightOfSteps]
    rcases List.mem_append.1 h with h | h
    · have := weight_le_weightOfStep h
      omega
    · have := ih h
      omega

theorem weight_le_weightOfChecks {x : Operation} {steps : List (AvailabilityStep Operation)}
    (h : x ∈ steps.map (·.condition)) : x.weight ≤ weightOfChecks steps := by
  induction steps with
  | nil => cases h
  | cons step rest ih =>
    rw [weightOfChecks]
    rcases List.mem_cons.1 h with rfl | h
    · cases step
      exact Nat.le_add_right _ _
    · have := ih h
      omega

/-- An operand weighs less than the operation. -/
theorem weight_lt_of_mem_operands {x op : Operation} (h : x ∈ op.operands) :
    x.weight < op.weight := by
  cases op with
  | andAlso xs | orElse xs | sum xs | multiply xs | custom _ _ xs =>
    exact Nat.lt_succ_of_le (weight_le_weightOfList h)
  | ifThenElse =>
    simp only [operands, List.mem_cons, List.not_mem_nil, or_false] at h
    rw [weight]
    rcases h with rfl | rfl | rfl <;> omega
  | compare | subtract | divide =>
    simp only [operands, List.mem_cons, List.not_mem_nil, or_false] at h
    rw [weight]
    rcases h with rfl | rfl <;> omega
  | not a =>
    cases List.mem_singleton.1 h
    exact Nat.lt_succ_self _
  | withMessage c message =>
    rw [weight]
    rcases List.mem_cons.1 h with rfl | h
    · omega
    · have := weight_le_weightOfOption h
      omega
  | validate chain =>
    have steps : weightOfSteps chain.steps =
        weightOfStep chain.first + weightOfSteps chain.rest := rfl
    rw [weight]
    rcases List.mem_append.1 h with h | h
    · have := weight_le_weightOfSteps h
      omega
    · have := weight_le_weightOfOption h
      omega
  | checkAvailability chain =>
    exact Nat.lt_succ_of_le (weight_le_weightOfChecks h)
  | _ => cases h

end Operation

end ReportCalc
