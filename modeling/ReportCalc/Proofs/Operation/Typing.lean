import ReportCalc.Proofs.Operation.Operands
import ReportCalc.Report.Index

/-!
# Typing of operations

Kinds can be checked without evaluating anything. What an operation asks of the kinds of its
operands and of the cell that it reads is said node by node (`Operation.Typed`); an operation is
well-typed when this and every operand below it is. Values of a kind are also values of the kinds
that it fits (`Kind.Fits.admits`).
-/

namespace ReportCalc

/-! ## Kinds -/

namespace Kind

/-- The kinds of which all values of a kind are values as well: the same, and the optional variant
of a scalar. -/
inductive Fits : Kind → Kind → Prop
  | refl (k : Kind) : Fits k k
  | optional (s : Scalar) : Fits (.scalar s) (.optional s)

/-- The kind of a verdict on a cell. -/
def IsVerdict (k : Kind) : Prop := k = .validity ∨ k = .availability

/-- The kinds of operands that arithmetic with results of a kind takes: integers, and numbers of the
same scalar, each plain or optional. -/
def Takes (result operand : Kind) : Prop :=
  operand.scalar? = some .int ∨ operand.scalar? = result.scalar?

variable {k k' : Kind} {s : Scalar} {v : Value}

theorem admits_scalar_iff : (Kind.scalar s).admits v = true ↔ v.scalar? = some s := by
  simp [admits]

theorem admits_optional_iff :
    (Kind.optional s).admits v = true ↔ v = .null ∨ v.scalar? = some s := by
  simp [admits, Value.isNull_iff]

theorem Fits.admits (h : Fits k k') (hv : k.admits v = true) : k'.admits v = true := by
  cases h with
  | refl => exact hv
  | optional s => exact admits_optional_iff.2 (.inr (admits_scalar_iff.1 hv))

/-- A value of a kind with a scalar is absent or of this scalar. -/
theorem scalar?_of_admits (hk : k.scalar? = some s) (hv : k.admits v = true) :
    v = .null ∨ v.scalar? = some s := by
  cases k with
  | scalar t =>
    cases hk
    exact .inr (admits_scalar_iff.1 hv)
  | optional t =>
    cases hk
    exact admits_optional_iff.1 hv
  | _ => cases hk

/-- A kind with a scalar admits its values, and an optional one the absent value as well. -/
theorem admits_of_scalar? (hk : k.scalar? = some s) (hv : v.scalar? = some s) :
    k.admits v = true := by
  cases k with
  | scalar t =>
    cases hk
    exact admits_scalar_iff.2 hv
  | optional t =>
    cases hk
    exact admits_optional_iff.2 (.inr hv)
  | _ => cases hk

theorem admits_null (hk : k.isOptional = true) : k.admits .null = true := by
  cases k with
  | optional s => rfl
  | _ => cases hk

theorem Fits.isVerdict (h : Fits k k') (hk : k.IsVerdict) : k'.IsVerdict := by
  cases h with
  | refl => exact hk
  | optional s => rcases hk with hk | hk <;> cases hk

theorem not_isVerdict_of_scalar? (hk : k.scalar? = some s) : ¬ k.IsVerdict := by
  rintro (rfl | rfl) <;> cases hk

theorem exists_scalar?_of_isNumeric (hk : k.isNumeric = true) :
    ∃ s, k.scalar? = some s ∧ s.isNumeric = true := (Option.any_eq_true ..).1 hk

theorem not_isVerdict_of_takes (hk : k.isNumeric = true) (h : k.Takes k') : ¬ k'.IsVerdict := by
  rcases h with h | h
  · exact not_isVerdict_of_scalar? h
  · obtain ⟨s, hs, -⟩ := exists_scalar?_of_isNumeric hk
    exact not_isVerdict_of_scalar? (h.trans hs)

end Kind

/-! ## Comparisons -/

/-- Whether the comparison asks for more than equality. -/
def Comparison.isOrder : Comparison → Bool
  | .eq | .ne => false
  | .lt | .le | .gt | .ge => true

/-- Whether values of the scalar have an order. -/
def Scalar.isOrdered : Scalar → Bool
  | .int | .decimal | .date | .dateTime => true
  | .bool | .text | .identifier => false

/-- The kinds between which there is a comparison: they are of the same scalar, or both are numbers.
An order is there only between plain kinds of scalars that have one. -/
structure Comparison.Takes (c : Comparison) (left right : Kind) : Prop where
  scalars : ∃ s t, left.scalar? = some s ∧ right.scalar? = some t ∧
    (s = t ∨ s.isNumeric = true ∧ t.isNumeric = true)
  order : c.isOrder = true → ∃ s t, left = .scalar s ∧ right = .scalar t ∧
    s.isOrdered = true ∧ t.isOrdered = true

/-! ## Operations -/

/-- Whether the cell can be read as a value of the kind. -/
def Cell.Provides (kind : Kind) : Cell → Prop
  | .const c => kind.admits c.value = true
  | .input c => c.kind.Fits kind
  | .operation c => c.operation.kind.Fits kind
  | .null _ | .slotted _ => False

/-- The messages that a step may stop with. -/
def ValidationStep.messages : ValidationStep Operation → List Operation
  | .check _ onTrue onFalse | .checkWithMessage _ onTrue onFalse =>
    Operation.ofAction onTrue ++ Operation.ofAction onFalse

/-- The kind of the condition of a step. -/
def ValidationStep.conditionKind : ValidationStep Operation → Kind
  | .check .. => .bool
  | .checkWithMessage .. => .boolWithMessage

theorem Operation.ofStep_eq (step : ValidationStep Operation) :
    ofStep step = step.condition :: step.messages := by
  cases step <;> rfl

theorem ValidationStep.mem_messages {step : ValidationStep Operation} {holds : Bool}
    {verdict : Verdict} {message : Option Operation}
    (h : step.action holds = .stop verdict message) {op : Operation} (hop : op ∈ message.toList) :
    op ∈ step.messages := by
  cases step <;> cases holds <;> simp_all [action, messages, Operation.ofAction]

/-- Whether an operation is a text, plain or optional. -/
def Operation.IsText (op : Operation) : Prop := op.kind.Fits (.optional .text)

/-- What the kind of an operation asks of the kinds of its operands, and of the cell that it reads
if its locator leads to one. -/
def Operation.Typed (resolve : Locator → Except EvaluationError Resolved) : Operation → Prop
  | .const value kind => kind.admits value = true
  | .cellValue locator kind => ∀ target, resolve locator = .ok target → target.cell.Provides kind
  | .ifThenElse condition whenTrue whenFalse kind =>
    condition.kind = .bool ∧ whenTrue.kind.Fits kind ∧ whenFalse.kind.Fits kind
  | .andAlso operands | .orElse operands => ∀ op ∈ operands, op.kind = .bool
  | .not operand => operand.kind = .bool
  | .compare left c right => c.Takes left.kind right.kind
  | .sum operands kind | .multiply operands kind =>
    kind.isNumeric = true ∧ ∀ op ∈ operands, kind.Takes op.kind
  | .subtract left right kind | .divide left right kind =>
    kind.isNumeric = true ∧ kind.Takes left.kind ∧ kind.Takes right.kind
  | .withMessage condition message =>
    condition.kind = .bool ∧ ∀ op ∈ message.toList, op.IsText
  | .validate chain =>
    (∀ step ∈ chain.steps, step.condition.kind = step.conditionKind ∧
        ∀ op ∈ step.messages, op.IsText) ∧ ∀ op ∈ chain.endMessage.toList, op.IsText
  | .checkAvailability chain => ∀ step ∈ chain.steps, step.condition.kind = .bool
  | .hasValue _ | .validity _ | .availability _ | .abort .. | .notApplicable .. => True
  | .custom .. => False

namespace Operation

/-- The operation and all operands below it are of standard kinds and typed. -/
def WellTyped (resolve : Locator → Except EvaluationError Resolved) (op : Operation) : Prop :=
  ∀ x, op.Contains x → x.kind ∈ Kind.standard ∧ x.Typed resolve

variable {resolve : Locator → Except EvaluationError Resolved} {op x : Operation}

theorem WellTyped.kind (h : op.WellTyped resolve) : op.kind ∈ Kind.standard := (h op (.refl op)).1

theorem WellTyped.typed (h : op.WellTyped resolve) : op.Typed resolve := (h op (.refl op)).2

theorem WellTyped.operand (h : op.WellTyped resolve) (hx : x ∈ op.operands) :
    x.WellTyped resolve := fun y hy => h y (.operand hx hy)

theorem wellTyped_iff : op.WellTyped resolve ↔
    op.kind ∈ Kind.standard ∧ op.Typed resolve ∧ ∀ x ∈ op.operands, x.WellTyped resolve := by
  refine ⟨fun h => ⟨h.kind, h.typed, fun x => h.operand⟩, ?_⟩
  rintro ⟨hkind, htyped, hoperands⟩ x hx
  cases hx with
  | refl => exact ⟨hkind, htyped⟩
  | operand hy hx => exact hoperands _ hy x hx

theorem IsText.not_isVerdict (h : op.IsText) : ¬ op.kind.IsVerdict := fun hverdict =>
  Kind.not_isVerdict_of_scalar? (k := .optional .text) rfl (h.isVerdict hverdict)

/-- Neither the conditions nor the messages of a chain are verdicts. -/
theorem Typed.not_isVerdict_of_mem_validate {chain : ValidationRule}
    (h : (Operation.validate chain).Typed resolve) (hx : x ∈ (Operation.validate chain).operands) :
    ¬ x.kind.IsVerdict := by
  obtain ⟨hsteps, hend⟩ := h
  rcases List.mem_append.1 hx with hx | hx
  · obtain ⟨step, hstep, hx⟩ := List.mem_flatMap.1 hx
    obtain ⟨hcondition, hmessages⟩ := hsteps step hstep
    rw [ofStep_eq] at hx
    rcases List.mem_cons.1 hx with rfl | hx
    · rw [hcondition]
      cases step <;> rintro (h | h) <;> cases h
    · exact (hmessages x hx).not_isVerdict
  · exact (hend x hx).not_isVerdict

/-- An operand that is a verdict makes a verdict of the operation. -/
theorem Typed.isVerdict_of_mem_operands (h : op.Typed resolve) (hx : x ∈ op.operands)
    (hverdict : x.kind.IsVerdict) : op.kind.IsVerdict := by
  have bool {y : Operation} (hy : y.kind = .bool) : ¬ y.kind.IsVerdict :=
    Kind.not_isVerdict_of_scalar? (congrArg Kind.scalar? hy)
  cases op with
  | const | cellValue | hasValue | validity | availability | abort | notApplicable => cases hx
  | custom => cases h
  | validate => exact .inl rfl
  | checkAvailability => exact .inr rfl
  | ifThenElse c t e kind =>
    simp only [operands, List.mem_cons, List.not_mem_nil, or_false] at hx
    rcases hx with rfl | rfl | rfl
    · exact absurd hverdict (bool h.1)
    · exact h.2.1.isVerdict hverdict
    · exact h.2.2.isVerdict hverdict
  | andAlso xs | orElse xs => exact absurd hverdict (bool (h x hx))
  | not a =>
    cases List.mem_singleton.1 hx
    exact absurd hverdict (bool h)
  | compare a c b =>
    obtain ⟨s, t, ha, hb, -⟩ := h.scalars
    simp only [operands, List.mem_cons, List.not_mem_nil, or_false] at hx
    rcases hx with rfl | rfl
    · exact absurd hverdict (Kind.not_isVerdict_of_scalar? ha)
    · exact absurd hverdict (Kind.not_isVerdict_of_scalar? hb)
  | sum xs kind | multiply xs kind =>
    exact absurd hverdict (Kind.not_isVerdict_of_takes h.1 (h.2 x hx))
  | subtract a b kind | divide a b kind =>
    simp only [operands, List.mem_cons, List.not_mem_nil, or_false] at hx
    rcases hx with rfl | rfl
    · exact absurd hverdict (Kind.not_isVerdict_of_takes h.1 h.2.1)
    · exact absurd hverdict (Kind.not_isVerdict_of_takes h.1 h.2.2)
  | withMessage c message =>
    rcases List.mem_cons.1 hx with rfl | hx
    · exact absurd hverdict (bool h.1)
    · exact absurd hverdict (h.2 x hx).not_isVerdict

end Operation

end ReportCalc
