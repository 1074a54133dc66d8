import ReportCalc.Proofs.Evaluation.Suspension
import ReportCalc.Proofs.Evaluation.Plain

/-!
# Evaluations under watch

A watch knows for which nodes operations are being evaluated, and takes note of every evaluation
that fails: of its error, of the nodes that were pending then, and of the journal at that time. It
looks on only: evaluations under watch have the same results and record the same as the built-in
ones (`Watch.evaluator_forgets`).
-/

namespace ReportCalc

variable {σ α : Type}

/-! ## Watches -/

/-- What was seen of an evaluation that failed. -/
structure Failure where
  error : EvaluationError
  pending : List Node
  journal : Journal

/-- The nodes for which operations are being evaluated, the innermost first, and the failures in the
order in which they were seen. -/
structure Watch where
  pending : List Node
  failures : List Failure

/-- The node for which operations are evaluated in a context. -/
def Context.node? (cx : Context) : Option Node :=
  cx.current.map fun target => ⟨target.address, cx.phase⟩

/-- Whether the error says that a log holds a result of another time. -/
def EvaluationError.isMismatch : EvaluationError → Bool
  | .timestampMismatch .. => true
  | _ => false

namespace Watch

/-- Nothing is being evaluated, and nothing has been seen. -/
def start : Watch := ⟨[], []⟩

def enter (watch : Watch) (n : Option Node) : Watch :=
  { watch with pending := n.toList ++ watch.pending }

/-- Takes note of a failure; running out of fuel is none. -/
def note (watch : Watch) (r : Except Interrupt α) (j : Journal) : Watch :=
  match r with
  | .error (.error e) => { watch with failures := watch.failures ++ [⟨e, watch.pending, j⟩] }
  | _ => watch

end Watch

/-- An evaluation under watch: meanwhile the node of the context is pending. -/
def Task.watched (cx : Context) (x : Task Watch α) : Task Watch α :=
  .ofEval <| ExceptT.mk fun w =>
    let (r, w') := x.run { w with host := w.host.enter cx.node? }
    (r, { w' with host := { w'.host.note r w'.journal with pending := w.host.pending } })

namespace Watch

/-- The evaluation with built-in rules, of which every step is under watch. -/
def evaluate : Nat → Context → Operation → Task Watch Value
  | 0, _, _ => Eval.outOfFuel
  | fuel + 1, cx, op => .watched cx <|
    if cx.knows (.of op) then
      op.checked (BuiltinRule.ofTag op.tag (.recorded (evaluate fuel)) cx op)
    else
      Eval.fail (.protocolNotFound op.tag op.kind)

theorem mem_failures_note {watch : Watch} {r : Except Interrupt α} {j : Journal} {f : Failure} :
    f ∈ (watch.note r j).failures ↔
      f ∈ watch.failures ∨ r = .error (.error f.error) ∧ f = ⟨f.error, watch.pending, j⟩ := by
  rcases r with (e | _) | a
  · simp only [note, List.mem_append, List.mem_singleton]
    refine or_congr_right ⟨?_, ?_⟩
    · rintro rfl
      exact ⟨rfl, rfl⟩
    · rintro ⟨he, hf⟩
      cases he
      exact hf
  · simp [note]
  · simp [note]

/-! ## Forgetting the watch -/

/-- A task under watch corresponds to one that has the same result and leaves the same journal
behind, wherever both start with the same journal. -/
def forgetting : Correspondence (Task Watch) (Task σ) where
  Rel x y := ∀ j watch host, (x.run ⟨j, watch⟩).1 = (y.run ⟨j, host⟩).1 ∧
    (x.run ⟨j, watch⟩).2.journal = (y.run ⟨j, host⟩).2.journal ∧ (y.run ⟨j, host⟩).2.host = host
  Admits _ := True
  Escapes _ := False
  not_signal := @EvaluationError.isSignal_of_false
  pure _ _ _ _ := ⟨rfl, rfl, rfl⟩
  fail _ _ _ _ := ⟨rfl, rfl, rfl⟩
  bind {_ _ x y f g} hx hf j watch host := by
    obtain ⟨hresult, hjournal, hhost⟩ := hx j watch host
    rw [Task.run_bind, Task.run_bind]
    generalize x.run ⟨j, watch⟩ = p at hresult hjournal
    generalize y.run ⟨j, host⟩ = q at hresult hjournal hhost
    obtain ⟨r, j', watch'⟩ := p
    obtain ⟨r', k, host'⟩ := q
    cases hresult
    cases hjournal
    cases hhost
    cases r with
    | ok a => exact hf a j' watch' host'
    | error i => exact ⟨rfl, rfl, rfl⟩
  lift {_ _ x _ _} _ hf j watch host := by
    cases x with
    | ok a => exact hf a rfl j watch host
    | error e => exact ⟨rfl, rfl, rfl⟩
  rescue {_ x y f g} hx _ hf j watch host := by
    obtain ⟨hresult, hjournal, hhost⟩ := hx j watch host
    rw [Task.run_rescue, Task.run_rescue]
    generalize x.run ⟨j, watch⟩ = p at hresult hjournal
    generalize y.run ⟨j, host⟩ = q at hresult hjournal hhost
    obtain ⟨r, j', watch'⟩ := p
    obtain ⟨r', k, host'⟩ := q
    cases hresult
    cases hjournal
    cases hhost
    rcases r with (e | _) | a
    · exact hf e trivial j' watch' host'
    · exact ⟨rfl, rfl, rfl⟩
    · exact ⟨rfl, rfl, rfl⟩

theorem forgetting_recordsLocal :
    (forgetting : Correspondence (Task Watch) (Task σ)).RecordsLocal :=
  ⟨fun _ _ => trivial, fun _ => False.elim⟩

theorem forgetting_settles : (forgetting : Correspondence (Task Watch) (Task σ)).Settles :=
  Correspondence.settles_of (fun _ _ _ => ⟨rfl, rfl, rfl⟩) (fun _ _ _ _ => ⟨rfl, rfl, rfl⟩)
    fun _ _ _ => trivial

theorem forgetting_watched {cx : Context} {x : Task Watch α} {y : Task σ α}
    (h : forgetting.Rel x y) : forgetting.Rel (.watched cx x) y := fun j watch host =>
  h j (watch.enter cx.node?) host

/-- The induction is on the fuel. -/
theorem evaluator_forgets {chain : ProtocolChain σ} (hchain : chain.IsBuiltin) (fuel : Nat)
    (cx : Context) (op : Operation) (hknows : cx.knows = chain.knows) :
    forgetting.Rel (evaluate fuel cx op) ((chain.evaluator fuel).task cx op) := by
  induction fuel generalizing cx op with
  | zero => exact fun _ _ _ => ⟨rfl, rfl, rfl⟩
  | succ fuel ih =>
    refine forgetting_watched ?_
    change forgetting.Rel _ (chain.dispatch op _)
    rw [ProtocolChain.dispatch, ProtocolChain.resolve, hknows, ProtocolChain.knows]
    cases hlookup : chain.lookup (.of op) with
    | none => exact fun _ _ _ => ⟨rfl, rfl, rfl⟩
    | some protocol =>
      obtain rfl := hchain _ _ hlookup
      refine Correspondence.checked forgetting_recordsLocal.admits ?_
      exact Correspondence.ofTag forgetting_settles forgetting_recordsLocal
        (s := fun cx => cx.knows = chain.knows) ih (fun _ => hknows) hknows fun _ _ => trivial

/-! ## Failures that are noted -/

/-- Tasks of which every fatal error is noted, but for those about the journal. -/
def noting : Correspondence (Task Watch) (Task Watch) where
  Rel x _ := ∀ w e, (x.run w).1 = .error (.error e) → e.isFatal = true → e.isMismatch = true ∨
    ∃ f ∈ (x.run w).2.host.failures, f.error = e
  Admits e := e.isFatal = true → e.isMismatch = true
  Escapes e := e.isFatal = true
  not_signal := @EvaluationError.isSignal_of_isFatal
  pure _ _ _ := nofun
  fail he _ _ h hfatal := by
    cases h
    exact .inl (he hfatal)
  bind {_ _ x _ f _} hx hf w e h hfatal := by
    rw [Task.run_bind] at h ⊢
    have hx := hx w
    rcases hrun : x.run w with ⟨i | a, w'⟩ <;> simp only [hrun] at h hx ⊢
    · cases h
      exact hx e rfl hfatal
    · exact hf a w' e h hfatal
  lift {_ _ x _ _} hx hf w e h hfatal := by
    cases x with
    | ok a => exact hf a rfl w e h hfatal
    | error e' =>
      cases h
      exact .inl (hx e rfl hfatal)
  rescue {_ x _ f _} hx hescapes hf w e h hfatal := by
    rw [Task.run_rescue] at h ⊢
    have hx := hx w
    rcases hrun : x.run w with ⟨(e' | _) | a, w'⟩ <;> simp only [hrun] at h hx ⊢
    · cases hlocal : e'.isFatal with
      | false => exact hf e' (fun hfatal' => by cases hlocal.symm.trans hfatal') w' e h hfatal
      | true =>
        rw [(hescapes e' hlocal).1] at h ⊢
        cases h
        exact hx e rfl hfatal
    · cases h
    · cases h

theorem noting_recordsLocal : noting.RecordsLocal :=
  ⟨fun _ hlocal hfatal => (by cases hlocal.not_fatal.symm.trans hfatal), fun _ => id⟩

theorem noting_settles : noting.Settles :=
  Correspondence.settles_of (fun _ _ => nofun) (fun _ _ _ => nofun) fun _ _ _ _ => rfl

/-- Whatever fails under watch is noted. -/
theorem noting_evaluate (fuel : Nat) (cx : Context) (op : Operation) :
    noting.Rel (evaluate fuel cx op) (evaluate fuel cx op) := by
  cases fuel with
  | zero => exact fun _ _ => nofun
  | succ fuel =>
    exact fun w e h _ => .inr ⟨⟨e, _, _⟩, mem_failures_note.2 (.inr ⟨h, rfl⟩), rfl⟩

theorem noting_runPass (fuel : Nat) (report : Report) (time : DateTime)
    (context : Phase → Context) :
    noting.Rel (runPass (evaluate fuel) report time context)
      (runPass (evaluate fuel) report time context) :=
  Correspondence.runPass noting_settles noting_recordsLocal (s := fun _ => True)
    (fun cx op _ => noting_evaluate fuel cx op) report time (fun _ _ => trivial)
    fun _ _ _ => nofun

end Watch

end ReportCalc
