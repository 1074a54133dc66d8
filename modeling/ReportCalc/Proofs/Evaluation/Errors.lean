import ReportCalc.Proofs.Operation.Operands
import ReportCalc.Proofs.Evaluation.Refusals

/-!
# Errors of rules

What a computation gives, and with which errors it may fail, is stated as `Yields`. What the rules
of built-in operations compute on values fails only with errors that are recorded as outcomes
(`FailsLocally`). The only fatal errors that a rule may raise on its own account are those of the
phase and of the locator of its operation (`Operation.MayRaise`).
-/

namespace ReportCalc

variable {ε α β : Type}

/-- The computation gives a value with the property, or fails with one of these errors. -/
def Yields (E : ε → Prop) (P : α → Prop) : Except ε α → Prop
  | .ok a => P a
  | .error e => E e

namespace Yields

variable {E : ε → Prop} {P : α → Prop} {Q : β → Prop} {x : Except ε α}

theorem ok {a : α} (h : P a) : Yields E P (.ok a) := h

theorem error {e : ε} (h : E e) : Yields E P (.error e) := h

theorem of_eq_ok {a : α} (hx : x = .ok a) (h : P a) : Yields E P x := by
  rw [hx]
  exact h

theorem value_of_eq {a : α} (h : Yields E P x) (hx : x = .ok a) : P a := by
  rw [hx] at h
  exact h

theorem error_of_eq {e : ε} (h : Yields E P x) (hx : x = .error e) : E e := by
  rw [hx] at h
  exact h

theorem mono {E' : ε → Prop} {R : α → Prop} (h : Yields E P x) (hE : ∀ e, E e → E' e)
    (hP : ∀ a, P a → R a) : Yields E' R x := by
  cases x with
  | ok a => exact hP a h
  | error e => exact hE e h

theorem bind {f : α → Except ε β} (h : Yields E P x) (hf : ∀ a, P a → Yields E Q (f a)) :
    Yields E Q (x >>= f) := by
  cases x with
  | ok a => exact hf a h
  | error e => exact h

/-- The value that is given is the one of the computation. -/
theorem and_eq (h : Yields E P x) : Yields E (fun a => x = .ok a ∧ P a) x := by
  cases x with
  | ok a => exact ⟨rfl, h⟩
  | error e => exact h

theorem map {f : α → β} (h : Yields E P x) (hf : ∀ a, P a → Q (f a)) : Yields E Q (x.map f) := by
  cases x with
  | ok a => exact hf a h
  | error e => exact h

section Interrupts
variable {F : Interrupt → Prop}

theorem lift {y : Except EvaluationError α} (h : Yields (F <| .error ·) P y) :
    Yields F P (liftM y : Except Interrupt α) := by
  cases y with
  | ok a => exact h
  | error e => exact h

theorem fail {e : EvaluationError} (h : F (.error e)) :
    Yields F P (Eval.fail e : Except Interrupt α) := h

theorem rescue {G : Interrupt → Prop} {y : Except Interrupt α}
    {f : EvaluationError → Except Interrupt α} (h : Yields F P y)
    (hfuel : F .outOfFuel → G .outOfFuel) (hf : ∀ e, F (.error e) → Yields G P (f e)) :
    Yields G P (Eval.rescue y f) := by
  rcases y with (e | _) | a
  · exact hf e h
  · exact hfuel h
  · exact h

theorem mapM {f : α → Except Interrupt β} {xs : List α} (h : ∀ x ∈ xs, Yields F Q (f x)) :
    Yields F (∀ b ∈ ·, Q b) (xs.mapM f) := by
  induction xs with
  | nil => exact .ok (List.forall_mem_nil _)
  | cons x xs ih =>
    rw [List.mapM_cons]
    refine (h x (List.mem_cons_self ..)).bind fun b hb => ?_
    refine (ih fun y hy => h y (List.mem_cons_of_mem _ hy)).bind fun bs hbs => ?_
    exact .ok (List.forall_mem_cons.2 ⟨hb, hbs⟩)

theorem forM {f : α → Except Interrupt Unit} {xs : List α}
    (h : ∀ x ∈ xs, Yields F (fun _ => True) (f x)) : Yields F (fun _ => True) (xs.forM f) := by
  induction xs with
  | nil => exact .ok trivial
  | cons x xs ih =>
    refine (h x (List.mem_cons_self ..)).bind fun _ _ => ?_
    exact ih fun y hy => h y (List.mem_cons_of_mem _ hy)

end Interrupts

end Yields

/-! ## Local errors -/

/-- The errors that rules raise while they compute. They are recorded as outcomes, and none of them
is a refusal. -/
structure EvaluationError.IsLocal (e : EvaluationError) : Prop where
  not_fatal : e.isFatal = false
  not_refusal : ¬ e.IsRefusal

theorem EvaluationError.IsLocal.noVerdict (cell reason : String) :
    (EvaluationError.noVerdict cell reason).IsLocal := ⟨rfl, nofun⟩

/-- Every error is one that rules raise while they compute. -/
def FailsLocally (x : Except EvaluationError α) : Prop := ∀ e, x = .error e → e.IsLocal

namespace FailsLocally

theorem ok (a : α) : FailsLocally (.ok a) := nofun

theorem error {e : EvaluationError} (h : e.IsLocal) :
    FailsLocally (.error e : Except EvaluationError α) := by
  rintro _ ⟨⟩
  exact h

theorem bind {x : Except EvaluationError α} {f : α → Except EvaluationError β} (h : FailsLocally x)
    (hf : ∀ a, FailsLocally (f a)) : FailsLocally (x >>= f) := by
  cases x with
  | ok a => exact hf a
  | error e => exact error (h e rfl)

theorem map {x : Except EvaluationError α} {f : α → β} (h : FailsLocally x) :
    FailsLocally (x.map f) := by
  cases x with
  | ok a => exact ok _
  | error e => exact error (h e rfl)

/-! ## Values -/

theorem check (kind : Kind) (v : Value) (context : String) :
    FailsLocally (kind.check v context) := by
  unfold Kind.check
  split
  · exact ok _
  · exact error ⟨rfl, nofun⟩

theorem expectBool (v : Value) (context : String) :
    FailsLocally (ReportCalc.expectBool v context) := by
  cases v with
  | bool => exact ok _
  | _ => exact error ⟨rfl, nofun⟩

theorem expectText (v : Value) (context : String) :
    FailsLocally (ReportCalc.expectText v context) := by
  cases v with
  | text | null => exact ok _
  | _ => exact error ⟨rfl, nofun⟩

theorem decide (step : ValidationStep Operation) (v : Value) : FailsLocally (step.decide v) := by
  cases step with
  | check => exact (expectBool v _).bind fun _ => ok _
  | checkWithMessage =>
    cases v with
    | boolWithMessage => exact ok _
    | _ => exact error ⟨rfl, nofun⟩

theorem compare (left right : Value) (c : Comparison) : FailsLocally (left.compare right c) := by
  have equality (equal : Bool) (typeName : String) :
      FailsLocally (Value.equalityOnly equal typeName c) := by
    have text (symbol : String) : ¬ EvaluationError.IsRefusal (.invalidOperation ("operator '" ++
        symbol ++ "' not defined for " ++ typeName ++ "; " ++ typeName ++
        " supports only = and !=")) := by
      refine not_isRefusal fun h => head?_of_mem_refusalWords h ?_
      simp [lastWord]
    cases c with
    | eq | ne => exact ok _
    | _ => exact error ⟨rfl, text _⟩
  fun_cases Value.compare left right c with
  | case12 =>
    have htext : "cannot compare " ++ left.typeName ++ " with " ++ right.typeName =
        "cannot compare " ++ left.typeName ++ " with" ++ " " ++ right.typeName := by
      simp only [String.append_assoc]
      rfl
    exact error ⟨rfl, htext ▸ not_isRefusal_typeName _ right⟩
  | case1 | case2 | case9 | case10 | case11 => exact equality _ _
  | _ => exact ok _

theorem apply (op : Arithmetic) (left right : Value) : FailsLocally (op.apply left right) := by
  have ints (l r : Int64) : FailsLocally (op.onInts l r) := by
    unfold Arithmetic.onInts
    split
    · exact error ⟨rfl, nofun⟩
    · split
      · exact ok _
      · exact error ⟨rfl, nofun⟩
  have decimals (l r : Decimal) : FailsLocally (op.onDecimals l r) := by
    unfold Arithmetic.onDecimals
    split
    · exact error ⟨rfl, nofun⟩
    · split
      · exact ok _
      · exact error ⟨rfl, nofun⟩
  unfold Arithmetic.apply
  split
  · exact (ints _ _).map
  · exact (decimals _ _).map
  · exact (decimals _ _).map
  · exact (decimals _ _).map
  · have htext : op.display ++ " not defined for " ++ left.typeName ++ " and " ++
        right.typeName =
        op.display ++ " not defined for " ++ left.typeName ++ " and" ++ " " ++ right.typeName := by
      simp only [String.append_assoc]
      rfl
    exact error ⟨rfl, htext ▸ not_isRefusal_typeName _ right⟩

theorem fold (op : Arithmetic) (operands : List Value) (kind : Kind) :
    FailsLocally (op.fold operands kind) := by
  have foldFrom (acc : Value) (rest : List Value) : FailsLocally (op.foldFrom acc rest) := by
    induction rest generalizing acc with
    | nil => exact ok _
    | cons v rest ih => exact (apply op acc v).bind ih
  unfold Arithmetic.fold
  split
  · exact ok _
  · exact (foldFrom _ _).bind fun _ => ok _

theorem binary (op : Arithmetic) (left right : Value) (kind : Kind) :
    FailsLocally (op.binary left right kind) := by
  unfold Arithmetic.binary
  split
  · exact ok _
  · exact (apply op left right).bind fun _ => ok _

/-! ## Cells -/

theorem operationCell (target : Resolved) : FailsLocally target.operationCell := by
  unfold Resolved.operationCell
  split
  · exact ok _
  · exact error ⟨rfl, nofun⟩

theorem rules (target : Resolved) : FailsLocally target.rules := by
  unfold Resolved.rules
  split
  · exact ok _
  · exact error ⟨rfl, nofun⟩

theorem succeededValue (target : Resolved) (outcome : ExecutionOutcome) :
    FailsLocally (ReportCalc.succeededValue target outcome) := by
  cases outcome with
  | succeeded => exact ok _
  | _ => exact error ⟨rfl, nofun⟩

theorem storedValue (target : Resolved) (kind : Kind) :
    FailsLocally (ReportCalc.storedValue target kind) := by
  unfold ReportCalc.storedValue
  split
  · exact ok _
  · split
    · exact ok _
    · split
      · exact ok _
      · exact error ⟨rfl, nofun⟩
  · exact error ⟨rfl, nofun⟩

end FailsLocally

/-! ## Operations -/

/-- The errors that the evaluation of an operation may raise by itself: those that are recorded as
outcomes, a wrong phase, and what keeps its locator from meaning a cell. -/
inductive Operation.MayRaise (cx : Context) (op : Operation) : EvaluationError → Prop
  | recorded {e : EvaluationError} (h : e.IsLocal) : MayRaise cx op e
  | phase (required : String) : MayRaise cx op (.wrongPhase op.tag cx.phase required)
  | locator {ref : Reference} {e : EvaluationError} (href : op.reference? = some ref)
      (h : cx.resolve ref.locator = .error e) : MayRaise cx op e

end ReportCalc
