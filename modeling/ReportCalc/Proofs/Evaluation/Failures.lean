import ReportCalc.Proofs.Evaluation.Recorded

/-!
# Errors of evaluations

Which errors evaluations with built-in protocols can raise, whatever the journal holds, is found
for any set of errors with the local ones in it (`Task.raising`). For a cell of the report only
some errors arise at all (`EvaluationError.arises`). So where a recalculation fails with one of the
others, it is not an evaluation that has raised it (`Task.failing_runPass`).
-/

namespace ReportCalc

variable {σ α : Type}

/-- Whether evaluations for a cell may raise the error: it is not about a call as a whole, and there
is a current cell. -/
def EvaluationError.arises : EvaluationError → Bool
  | .noCurrentCell _ | .nonUtcTimestamp _ | .rerunLimitExceeded _ | .config _ => false
  | _ => true

theorem EvaluationError.arises_of_not_fatal {e : EvaluationError} (h : e.isFatal = false) :
    e.arises = true := by
  cases e <;> first | rfl | cases h

/-! ## Locators -/

/-- Whether the error says that a locator leads to no cell. -/
def EvaluationError.isUnlocated : EvaluationError → Bool
  | .sectionNotFound _ | .cellNotFound .. | .notSlotted .. | .slotNotFound .. | .slotIdRequired _ =>
    true
  | _ => false

theorem EvaluationError.not_fatal_of_isUnlocated {e : EvaluationError}
    (h : e.isUnlocated = true) : e.isFatal = false := by
  cases e <;> first | rfl | cases h

namespace ReportIndex

variable {index : ReportIndex} {r : Report}

theorem narrow_yields (cellId : String) (a : CellAddress) (cell : Cell) (choice : SlotChoice) :
    Yields (·.isUnlocated = true) (fun _ => True) (narrow cellId a cell choice) := by
  unfold narrow
  split
  · split
    · exact .ok trivial
    · exact .error rfl
  · split
    · exact .ok trivial
    · exact .error rfl
  · exact .error rfl
  · exact .ok trivial

theorem locateIn_yields (sectionIndex : Nat) (cellId : String) (choice : SlotChoice) :
    Yields (·.isUnlocated = true) (fun _ => True)
      (index.locateIn r sectionIndex cellId choice) := by
  unfold locateIn
  cases (index.cells.lookup cellId).filter (·.row.sectionIndex == sectionIndex) with
  | none => exact .error rfl
  | some a =>
    cases hcell : r.cellAt? a with
    | none =>
      simp only [hcell]
      exact .error rfl
    | some cell =>
      simp only [hcell]
      exact narrow_yields cellId a cell choice

/-- A locator fails by leading to no cell, or for want of a current cell. -/
theorem resolve_yields_of (locator : Locator) (current : Option CellAddress) :
    Yields (fun e => e.isUnlocated = true ∨ current = none ∧ e = .noCurrentCell locator.display)
      (fun _ => True) (index.resolve r locator current) := by
  have sectionIndex (id : String) :
      Yields (·.isUnlocated = true) (fun _ => True) (index.sectionIndex id) := by
    unfold ReportIndex.sectionIndex
    split
    · exact .ok trivial
    · exact .error rfl
  have currentOf : Yields (fun e => e.isUnlocated = true ∨
      current = none ∧ e = .noCurrentCell locator.display) (fun _ => True)
        (currentOf locator current) := by
    cases current with
    | none => exact .error (.inr ⟨rfl, rfl⟩)
    | some a => exact .ok trivial
  have locate : Yields (fun e => e.isUnlocated = true ∨
      current = none ∧ e = .noCurrentCell locator.display) (fun _ => True)
        (index.locate r locator current) := by
    cases locator with
    | inReport | standard =>
      exact ((sectionIndex _).bind fun n _ => locateIn_yields n _ _).mono (fun _ => .inl)
        fun _ _ => trivial
    | inSection =>
      exact currentOf.bind fun a _ => (locateIn_yields _ _ _).mono (fun _ => .inl)
        fun _ _ => trivial
    | self => exact currentOf
  refine locate.bind fun b _ => ?_
  cases hcell : r.cellAt? b with
  | some cell => exact .ok trivial
  | none => exact .error (.inl rfl)

/-- A locator that is read where there is a current cell fails only by leading to no cell. -/
theorem resolve_yields (locator : Locator) (a : CellAddress) :
    Yields (·.isUnlocated = true) (fun _ => True) (index.resolve r locator (some a)) :=
  (resolve_yields_of locator (some a)).mono (fun _ he => he.resolve_right fun h => nomatch h.1)
    fun _ => id

end ReportIndex

/-! ## Runs -/

/-- All errors that runs end with are among these. -/
def RaisesOnly (E : EvaluationError → Prop) (run : World σ → Except Interrupt α × World σ) : Prop :=
  ∀ w e, (run w).1 = .error (.error e) → E e

namespace RaisesOnly

variable {β : Type} {E : EvaluationError → Prop} {x : World σ → Except Interrupt α × World σ}

theorem bind {f : α → World σ → Except Interrupt β × World σ} (hx : RaisesOnly E x)
    (hf : ∀ a, RaisesOnly E (f a)) :
    RaisesOnly E fun w => match x w with
      | (.ok a, w) => f a w
      | (.error i, w) => (.error i, w) := by
  intro w e h
  rcases hrun : x w with ⟨i | a, w'⟩ <;> simp only [hrun] at h
  · cases h
    exact hx w e (congrArg Prod.fst hrun)
  · exact hf a w' e h

theorem rescue {f : EvaluationError → World σ → Except Interrupt α × World σ}
    (hx : RaisesOnly E x) (hf : ∀ e, E e → RaisesOnly E (f e)) :
    RaisesOnly E fun w => match x w with
      | (.error (.error e), w) => f e w
      | r => r := by
  intro w e h
  rcases hrun : x w with ⟨(e' | _) | a, w'⟩ <;> simp only [hrun] at h
  · exact hf e' (hx w e' (congrArg Prod.fst hrun)) w' e h
  · cases h
  · cases h

end RaisesOnly

namespace Task

section Raising
variable (E : EvaluationError → Prop)

/-- Tasks, and evaluations in one go, of which no run ends with an error that is not among
these. -/
def raising : Correspondence (Task σ) (Eval σ) where
  Rel x y := RaisesOnly E x.run ∧ RaisesOnly E y.run
  Admits := E
  Escapes _ := False
  not_signal := @EvaluationError.isSignal_of_false
  pure _ := ⟨fun _ _ => nofun, fun _ _ => nofun⟩
  fail he := by
    constructor <;> rintro _ _ ⟨⟩ <;> exact he
  bind hx hf := by
    refine ⟨?_, ?_⟩
    · rw [funext (run_bind _ _)]
      exact hx.1.bind fun a => (hf a).1
    · rw [funext (Eval.run_bind _ _)]
      exact hx.2.bind fun a => (hf a).2
  lift {_ _ x _ _} hx hf := by
    cases x with
    | ok a => exact hf a rfl
    | error e => constructor <;> rintro _ _ ⟨⟩ <;> exact hx e rfl
  rescue hx _ hf := by
    refine ⟨?_, ?_⟩
    · rw [funext (run_rescue _ _)]
      exact hx.1.rescue fun e he => (hf e he).1
    · rw [funext (Eval.run_rescue _ _)]
      exact hx.2.rescue fun e he => (hf e he).2

variable {E}

theorem raising_recordsLocal (h : ∀ e : EvaluationError, e.IsLocal → E e) :
    (raising E : Correspondence (Task σ) (Eval σ)).RecordsLocal :=
  ⟨h, fun _ => False.elim⟩

theorem raising_settles
    (h : ∀ label expected found, E (.timestampMismatch label expected found)) :
    (raising E : Correspondence (Task σ) (Eval σ)).Settles :=
  Correspondence.settles_of (R := raising E) ⟨fun _ _ => nofun, fun _ _ => nofun⟩
    (fun _ => ⟨fun _ _ => nofun, fun _ _ => nofun⟩) h

end Raising

/-! ## Errors that arise for cells -/

abbrev failing : Correspondence (Task σ) (Eval σ) := raising (·.arises = true)

theorem failing_recordsLocal : (failing : Correspondence (Task σ) (Eval σ)).RecordsLocal :=
  raising_recordsLocal fun _ h => EvaluationError.arises_of_not_fatal h.not_fatal

theorem failing_settles : (failing : Correspondence (Task σ) (Eval σ)).Settles :=
  raising_settles fun _ _ _ => rfl

section Evaluator
variable {chain : ProtocolChain σ} (hchain : chain.IsBuiltin)
include hchain

/-- The induction is on the fuel. There is a current cell wherever an operation is evaluated. -/
theorem failing_evaluator (fuel : Nat) (cx : Context) (op : Operation)
    (hcx : cx.current.isSome = true) :
    failing.Rel ((chain.evaluator fuel).task cx op) ((chain.evaluator fuel).run cx op) := by
  induction fuel generalizing cx op with
  | zero => exact ⟨fun _ _ => nofun, fun _ _ => nofun⟩
  | succ fuel ih =>
    refine Correspondence.dispatch failing_recordsLocal.admits rfl fun protocol hprotocol => ?_
    obtain rfl := hchain _ _ hprotocol
    refine Correspondence.ofTag failing_settles failing_recordsLocal
      (s := fun cx => cx.current.isSome = true) ih (fun _ => rfl) hcx fun e he => ?_
    obtain ⟨current, hcurrent⟩ := Option.isSome_iff_exists.1 hcx
    cases he with
    | recorded h => exact EvaluationError.arises_of_not_fatal h.not_fatal
    | phase => rfl
    | locator href h =>
      rw [Context.resolve, hcurrent] at h
      exact EvaluationError.arises_of_not_fatal
        (EvaluationError.not_fatal_of_isUnlocated ((ReportIndex.resolve_yields _ _).error_of_eq h))

/-- A pass fails only with errors of evaluations. -/
theorem failing_runPass (fuel : Nat) (report : Report) (time : DateTime)
    (context : Phase → Context) :
    failing.Rel (runPass (chain.evaluator fuel).task report time context)
      (runPass (chain.evaluator fuel).run report time context) :=
  Correspondence.runPass failing_settles failing_recordsLocal
    (s := fun cx => cx.current.isSome = true) (failing_evaluator hchain fuel) report time
    (fun _ _ => rfl) fun _ => ⟨fun _ _ => nofun, fun _ _ => nofun⟩

end Evaluator

end Task

end ReportCalc
