import ReportCalc.Proofs.Evaluation.Failures

/-!
# What the built-in tables cover

The tags that are listed for kinds, the tags and kinds of operations, and the operations that the
rules know fit together. A chain of built-in tables finds a protocol for every operation of one of
its kinds, but for those of hosts and for arithmetic on what is no number, and that protocol never
refuses the operation (`ProtocolChain.builtins_cover`).
-/

namespace ReportCalc

variable {σ : Type}

/-! ## No refusals -/

/-- No evaluation ends with a refusal, run in one go or as a task. -/
def Evaluator.Answers (ev : Evaluator σ) : Prop :=
  ∀ cx op, (Task.raising (¬ ·.IsRefusal)).Rel (ev.task cx op) (ev.run cx op)

theorem Context.not_isRefusal_of_resolve {cx : Context} {locator : Locator} {e : EvaluationError}
    (h : cx.resolve locator = .error e) : ¬ e.IsRefusal := by
  rcases (ReportIndex.resolve_yields_of locator _).error_of_eq h with hunlocated | ⟨-, rfl⟩
  · rintro ⟨protocol, tag, htag⟩
    cases hunlocated
  · exact nofun

/-- A rule that is asked for the operations of its tag does not refuse them, as long as no operand
is refused. -/
theorem BuiltinRule.ofTag_answers {ev : Evaluator σ} (hev : ev.Answers) (cx : Context)
    (op : Operation) :
    (Task.raising (¬ ·.IsRefusal)).Rel ((Protocol.ofTag op.tag).task ev cx op)
      ((Protocol.ofTag op.tag).run ev cx op) := by
  refine Correspondence.ofTag (Task.raising_settles fun _ _ _ => nofun)
    (Task.raising_recordsLocal fun _ h => h.not_refusal) (s := fun _ => True)
    (fun cx op _ => hev cx op) (fun _ => trivial) trivial fun e he => ?_
  cases he with
  | recorded h => exact h.not_refusal
  | phase => exact nofun
  | locator href h => exact Context.not_isRefusal_of_resolve h

namespace ProtocolChain

/-- The induction is on the fuel: the operands are evaluated with less of it. -/
theorem IsBuiltin.evaluator_answers {chain : ProtocolChain σ} (hchain : chain.IsBuiltin)
    (fuel : Nat) : (chain.evaluator fuel).Answers := by
  induction fuel with
  | zero => exact fun _ _ => ⟨fun _ _ => nofun, fun _ _ => nofun⟩
  | succ fuel ih =>
    intro cx op
    refine Correspondence.dispatch (Task.raising_recordsLocal fun _ h => h.not_refusal).admits
      nofun fun protocol hprotocol => ?_
    obtain rfl := hchain _ _ hprotocol
    exact BuiltinRule.ofTag_answers ih cx op

/-! ## Coverage -/

theorem resolve_eq_ok_iff {chain : ProtocolChain σ} {key : ProtocolKey} {protocol : Protocol σ} :
    chain.resolve key = .ok protocol ↔ chain.lookup key = some protocol := by
  unfold resolve
  cases chain.lookup key <;> simp

theorem exists_resolve_iff (kinds : List Kind) (op : Operation) :
    (∃ protocol : Protocol σ, (withBuiltins [] kinds).resolve (.of op) = .ok protocol) ↔
      (∀ name result args payload, op ≠ .custom name result args payload) ∧ op.kind ∈ kinds ∧
        (op.tag.isArithmetic = true → op.kind.isNumeric = true) := by
  simp only [resolve_eq_ok_iff, lookup_withBuiltins_eq, List.findSome?_nil, Option.none_or]
  constructor
  · rintro ⟨protocol, h⟩
    split at h
    · next hkind =>
      obtain ⟨-, -, hlisted⟩ := lookup_builtinFactory_eq_some_iff.1 h
      obtain ⟨hcustom, hnumeric⟩ := Operation.exists_mem_builtinProtocols_iff.1 hlisted
      exact ⟨hcustom, hkind, hnumeric⟩
    · cases h
  · rintro ⟨hcustom, hkind, hnumeric⟩
    have hlisted := Operation.exists_mem_builtinProtocols_iff (σ := σ).2 ⟨hcustom, hnumeric⟩
    exact ⟨.ofTag op.tag, (if_pos hkind).trans
      (lookup_builtinFactory_eq_some_iff.2 ⟨rfl, rfl, hlisted⟩)⟩

/-- The protocols that are found do not refuse what they are found for. -/
theorem protocol_answers {kinds : List Kind} {op : Operation} {protocol : Protocol σ}
    (h : (withBuiltins [] kinds).resolve (.of op) = .ok protocol) {ev : Evaluator σ}
    (hev : ev.Answers) (cx : Context) (w : World σ) (name : String) :
    ((protocol.run ev cx op).run w).1 ≠ .error (.error (.invalidOperation
        (name ++ " protocol cannot evaluate " ++ op.tag.display))) ∧
      ((protocol.task ev cx op).run w).1 ≠ .error (.error (.invalidOperation
        (name ++ " protocol cannot evaluate " ++ op.tag.display))) := by
  have hcustom := ((exists_resolve_iff kinds op).1 ⟨protocol, h⟩).1
  have hbuiltin : op.tag ∈ OperationTag.builtin := by
    cases op with
    | custom name result args payload => exact absurd rfl (hcustom name result args payload)
    | _ => simp [Operation.tag, OperationTag.builtin]
  obtain rfl := isBuiltin_withBuiltins kinds _ _ (resolve_eq_ok_iff.1 h)
  obtain ⟨htask, hrun⟩ := BuiltinRule.ofTag_answers hev cx op
  exact ⟨fun herror => hrun w _ herror ⟨name, op.tag, hbuiltin⟩,
    fun herror => htask w _ herror ⟨name, op.tag, hbuiltin⟩⟩

/-- A chain of built-in tables finds a protocol exactly for the operations that are no host's, whose
kind it has a table for and which compute with numbers if they are arithmetic. The protocol never
refuses the operation, neither run in one go nor as a task: not with the chain's own evaluations of
operands, and not with any others that refuse nothing. -/
theorem builtins_cover (kinds : List Kind) (op : Operation) :
    ((∃ protocol : Protocol σ, (withBuiltins [] kinds).resolve (.of op) = .ok protocol) ↔
      (∀ name result args payload, op ≠ .custom name result args payload) ∧ op.kind ∈ kinds ∧
        (op.tag.isArithmetic = true → op.kind.isNumeric = true)) ∧
    ∀ protocol : Protocol σ, (withBuiltins [] kinds).resolve (.of op) = .ok protocol →
      ∀ ev : Evaluator σ, (ev.Answers ∨ ∃ fuel, ev = (withBuiltins [] kinds).evaluator fuel) →
        ∀ (cx : Context) (w : World σ) (name : String),
          ((protocol.run ev cx op).run w).1 ≠ .error (.error (.invalidOperation
              (name ++ " protocol cannot evaluate " ++ op.tag.display))) ∧
            ((protocol.task ev cx op).run w).1 ≠ .error (.error (.invalidOperation
              (name ++ " protocol cannot evaluate " ++ op.tag.display))) := by
  refine ⟨exists_resolve_iff kinds op, ?_⟩
  rintro protocol h ev (hev | ⟨fuel, rfl⟩)
  · exact protocol_answers h hev
  · exact protocol_answers h ((isBuiltin_withBuiltins kinds).evaluator_answers fuel)

/-- The sum of two integers has a protocol in a chain with a table for integers. -/
theorem builtins_cover_sum :
    let op : Operation := .sum [.const (.int 1) (.scalar .int), .const (.int 2) (.scalar .int)]
      (.scalar .int)
    let chain : ProtocolChain Unit := withBuiltins [] [.scalar .int]
    ∃ protocol, chain.resolve (.of op) = .ok protocol ∧
      ∀ fuel cx w, ((protocol.run (chain.evaluator fuel) cx op).run w).1 ≠
        .error (.error (.invalidOperation "arithmetic protocol cannot evaluate Sum")) := by
  intro op chain
  obtain ⟨hiff, hanswers⟩ := @builtins_cover Unit [.scalar .int] op
  obtain ⟨protocol, hprotocol⟩ := hiff.2 ⟨nofun, List.mem_singleton_self _, fun _ => rfl⟩
  exact ⟨protocol, hprotocol, fun fuel cx w =>
    (hanswers protocol hprotocol _ (.inr ⟨fuel, rfl⟩) cx w "arithmetic").1⟩

end ProtocolChain

end ReportCalc
