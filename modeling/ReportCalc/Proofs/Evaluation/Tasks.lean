import ReportCalc.Evaluation.World

/-!
# Running tasks

A task that is resumed until it is done runs through its parts one after the other
(`Task.run_bind`, `Task.run_rescue`). The worlds in which it may be suspended on the way are its
trace: the world before each step, and the world at the end.
-/

namespace ReportCalc

variable {σ α β : Type}

instance : LawfulMonad (Eval σ) :=
  inferInstanceAs (LawfulMonad (ExceptT Interrupt (StateM (World σ))))

namespace Task

/-! ## Sequences -/

theorem andThen_done (x : Task σ α) : (x.andThen fun a => .done (.ok a)) = x := by
  induction x with
  | done result => cases result <;> rfl
  | step change next ih => exact congrArg (step change) (funext ih)

theorem andThen_assoc {γ : Type} (x : Task σ α) (f : α → Task σ β) (g : β → Task σ γ) :
    (x.andThen f).andThen g = x.andThen fun a => (f a).andThen g := by
  induction x with
  | done result => cases result <;> rfl
  | step change next ih => exact congrArg (step change) (funext ih)

instance : LawfulMonad (Task σ) := .mk' _ andThen_done (fun _ _ => rfl) andThen_assoc

/-! ## Runs -/

@[simp] theorem run_pure (a : α) (w : World σ) : (pure a : Task σ α).run w = (.ok a, w) := rfl

@[simp] theorem run_fail (e : EvaluationError) (w : World σ) :
    (Eval.fail e : Task σ α).run w = (.error (.error e), w) := rfl

@[simp] theorem run_outOfFuel (w : World σ) :
    (Eval.outOfFuel : Task σ α).run w = (.error .outOfFuel, w) := rfl

@[simp] theorem run_ofEval (x : Eval σ α) (w : World σ) : (ofEval x).run w = x.run w := rfl

@[simp] theorem run_journal (w : World σ) :
    (Recording.journal : Task σ Journal).run w = (.ok w.journal, w) := rfl

@[simp] theorem run_modifyJournal (f : Journal → Journal) (w : World σ) :
    (Recording.modifyJournal f : Task σ Unit).run w =
      (.ok (), { w with journal := f w.journal }) := rfl

theorem run_bind (x : Task σ α) (f : α → Task σ β) (w : World σ) :
    (x >>= f).run w = match x.run w with
      | (.ok a, w) => (f a).run w
      | (.error i, w) => (.error i, w) := by
  change (x.andThen f).run w = _
  induction x generalizing w with
  | done result => cases result <;> rfl
  | step change next ih =>
    simp only [andThen, run]
    exact ih w (change w)

theorem exists_of_run_bind {x : Task σ α} {f : α → Task σ β} {w w' : World σ} {b : β}
    (h : (x >>= f).run w = (.ok b, w')) :
    ∃ a w₁, x.run w = (.ok a, w₁) ∧ (f a).run w₁ = (.ok b, w') := by
  rw [run_bind] at h
  rcases hx : x.run w with ⟨i | a, w₁⟩ <;> rw [hx] at h
  · cases h
  · exact ⟨a, w₁, rfl, h⟩

/-- A sequence is interrupted in its first part, or if that has a value, in its second. -/
theorem error_of_run_bind {x : Task σ α} {f : α → Task σ β} {w w' : World σ} {i : Interrupt}
    (h : (x >>= f).run w = (.error i, w')) : x.run w = (.error i, w') ∨
      ∃ a w₁, x.run w = (.ok a, w₁) ∧ (f a).run w₁ = (.error i, w') := by
  rw [run_bind] at h
  rcases hx : x.run w with ⟨j | a, w₁⟩ <;> rw [hx] at h
  · cases h
    exact .inl rfl
  · exact .inr ⟨a, w₁, rfl, h⟩

theorem run_orElse (x : Task σ α) (f : Interrupt → Task σ α) (w : World σ) :
    (x.orElse f).run w = match x.run w with
      | (.error i, w) => (f i).run w
      | r => r := by
  induction x generalizing w with
  | done result => cases result <;> rfl
  | step change next ih =>
    simp only [orElse, run]
    exact ih w (change w)

theorem run_rescue (x : Task σ α) (handle : EvaluationError → Task σ α) (w : World σ) :
    (Eval.rescue x handle).run w = match x.run w with
      | (.error (.error e), w) => (handle e).run w
      | r => r := by
  refine (run_orElse x _ w).trans ?_
  rcases x.run w with ⟨(_ | _) | _, _⟩ <;> rfl

/-! ## Traces -/

/-- The worlds that a task runs through, from the first to the last. -/
def trace : Task σ α → World σ → List (World σ)
  | .done _, w => [w]
  | .step change next, w => w :: (next w).trace (change w)

theorem run_mem_trace (x : Task σ α) (w : World σ) : (x.run w).2 ∈ x.trace w := by
  induction x generalizing w with
  | done => exact List.mem_singleton_self _
  | step change next ih => exact List.mem_cons_of_mem _ (ih w (change w))

/-- A sequence runs through the worlds of its first part, and if that has a value, of the second. -/
theorem mem_trace_bind {x : Task σ α} {f : α → Task σ β} {w w' : World σ}
    (h : w' ∈ (x >>= f).trace w) : w' ∈ x.trace w ∨
      ∃ a, (x.run w).1 = .ok a ∧ w' ∈ (f a).trace (x.run w).2 := by
  change w' ∈ (x.andThen f).trace w at h
  induction x generalizing w with
  | done result =>
    cases result with
    | ok a => exact .inr ⟨a, rfl, h⟩
    | error i => exact .inl h
  | step change next ih =>
    rcases List.mem_cons.1 h with rfl | h
    · exact .inl (List.mem_cons_self ..)
    · exact (ih w h).imp_left (List.mem_cons_of_mem _)

theorem mem_trace_orElse {x : Task σ α} {f : Interrupt → Task σ α} {w w' : World σ}
    (h : w' ∈ (x.orElse f).trace w) : w' ∈ x.trace w ∨
      ∃ i, (x.run w).1 = .error i ∧ w' ∈ (f i).trace (x.run w).2 := by
  induction x generalizing w with
  | done result =>
    cases result with
    | ok a => exact .inl h
    | error i => exact .inr ⟨i, rfl, h⟩
  | step change next ih =>
    rcases List.mem_cons.1 h with rfl | h
    · exact .inl (List.mem_cons_self ..)
    · exact (ih w h).imp_left (List.mem_cons_of_mem _)

theorem mem_trace_rescue {x : Task σ α} {handle : EvaluationError → Task σ α} {w w' : World σ}
    (h : w' ∈ (Eval.rescue x handle).trace w) : w' ∈ x.trace w ∨
      ∃ e, (x.run w).1 = .error (.error e) ∧ w' ∈ (handle e).trace (x.run w).2 := by
  rcases mem_trace_orElse h with h | ⟨i, hi, h⟩
  · exact .inl h
  · cases i with
    | error e => exact .inr ⟨e, hi, h⟩
    | outOfFuel =>
      cases List.mem_singleton.1 h
      exact .inl (run_mem_trace x w)

end Task

end ReportCalc
