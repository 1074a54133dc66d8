import ReportCalc.Proofs.Evaluation.Recorded

/-!
# Suspended evaluations

An evaluation as a task, resumed until it is done, has the result and the effects of the same
evaluation in one go. For the built-in operations this is an instance of `Correspondence.rule`; of
the host's protocols it is assumed, at whatever depth they evaluate operands. Then whole
recalculations agree (`Agent.recalcTask_eq_recalc`), also where they nest deeper than `hostDepth`
allows.
-/

namespace ReportCalc

variable {σ α β : Type}

/-! ## Agreement -/

namespace Task

/-- A task and an evaluation in one go correspond when both have the same result and leave the same
world behind. -/
def agreement : Correspondence (Task σ) (Eval σ) where
  Rel x y := ∀ w, x.run w = y.run w
  Admits _ := True
  Escapes _ := False
  not_signal := @EvaluationError.isSignal_of_false
  pure _ _ := rfl
  fail _ _ := rfl
  bind hx hf w := by
    rw [run_bind, Eval.run_bind, hx w]
    rcases Eval.run _ w with ⟨i | a, w⟩
    · rfl
    · exact hf a w
  lift {_ _ x _ _} _ hf w := by
    cases x with
    | ok a => exact hf a rfl w
    | error e => rfl
  rescue hx _ hf w := by
    rw [run_rescue, Eval.run_rescue, hx w]
    rcases Eval.run _ w with ⟨(e | _) | a, w⟩
    · exact hf e trivial w
    · rfl
    · rfl

theorem agreement_recordsLocal : (agreement : Correspondence (Task σ) (Eval σ)).RecordsLocal :=
  ⟨fun _ _ => trivial, fun _ => False.elim⟩

theorem agreement_settles : (agreement : Correspondence (Task σ) (Eval σ)).Settles :=
  Correspondence.settles_of (fun _ => rfl) (fun _ _ => rfl) fun _ _ _ => trivial

/-- An evaluation in one go agrees with the task of a single step that it is. -/
theorem agreement_ofEval (x : Eval σ α) : agreement.Rel (.ofEval x) x := fun _ => rfl

section Evaluations
variable {ev : Context → Operation → Task σ Value} {ev' : Context → Operation → Eval σ Value}
  (h : ∀ cx op, agreement.Rel (ev cx op) (ev' cx op))
include h

theorem agreement_ofTag (cx : Context) (op : Operation) :
    agreement.Rel (BuiltinRule.ofTag op.tag (.recorded ev) cx op)
      (BuiltinRule.ofTag op.tag (.recorded ev') cx op) :=
  Correspondence.ofTag agreement_settles agreement_recordsLocal (s := fun _ => True)
    (fun cx op _ => h cx op) (fun _ => trivial) trivial fun _ _ => trivial

theorem agreement_runPass (report : Report) (time : DateTime) (context : Phase → Context) :
    agreement.Rel (runPass ev report time context) (runPass ev' report time context) :=
  Correspondence.runPass agreement_settles agreement_recordsLocal (s := fun _ => True)
    (fun cx op _ => h cx op) report time (fun _ _ => trivial) fun _ _ => rfl

end Evaluations

end Task

/-! ## Evaluators and protocols -/

/-- Both ways to evaluate an operation have the same result and the same effects. -/
def Evaluator.Agrees (ev : Evaluator σ) : Prop :=
  ∀ cx op w, (ev.task cx op).run w = (ev.run cx op).run w

/-- Both ways of a protocol have the same result and the same effects, given these evaluations of
operands. -/
def Protocol.Agrees (protocol : Protocol σ) (ev : Evaluator σ) : Prop :=
  ∀ cx op w, (protocol.task ev cx op).run w = (protocol.run ev cx op).run w

namespace ProtocolChain

variable {chain : ProtocolChain σ} {host : List (ProtocolSource σ)} {kinds : List Kind}

/-- The protocols of sources agree, given the evaluations of the chain as far as these agree. -/
def HostAgrees (chain : ProtocolChain σ) (host : List (ProtocolSource σ)) : Prop :=
  ∀ source ∈ host, ∀ key protocol, source key = some protocol →
    ∀ fuel, (chain.evaluator fuel).Agrees → protocol.Agrees (chain.evaluator fuel)

/-- The induction is on the fuel: the operands are evaluated with less of it. -/
theorem evaluator_agrees (h : (withBuiltins host kinds).HostAgrees host) (fuel : Nat) :
    ((withBuiltins host kinds).evaluator fuel).Agrees := by
  induction fuel with
  | zero => exact fun _ _ _ => rfl
  | succ fuel ih =>
    intro cx op
    refine Correspondence.dispatch Task.agreement_recordsLocal.admits trivial ?_
    intro protocol hprotocol
    rcases lookup_withBuiltins hprotocol with ⟨source, hsource, hfound⟩ | rfl
    · exact h source hsource _ protocol hfound fuel ih cx op
    · exact Task.agreement_ofTag ih cx op

theorem taskPass_eq_pass (h : ∀ fuel, (chain.evaluator fuel).Agrees) (index : ReportIndex)
    (time : DateTime) : chain.taskPass index time = chain.pass index time := by
  funext report w
  exact Task.agreement_runPass (h _) report time _ w

end ProtocolChain

/-! ## Recalculations -/

/-- A recalculation that may be suspended ends as the one that is run in one go, with equal logs and
inputs, and so does every single evaluation. -/
theorem Agent.recalcTask_eq_recalc (agent : Agent) (options : RecalcOptions σ) (time : DateTime)
    (host : σ)
    (h : (protocolChain agent.config options).HostAgrees options.sources) :
    agent.recalcTask options time host = agent.recalc options time host ∧
      ∀ (fuel : Nat) (cx : Context) (op : Operation) (w : World σ),
        (((protocolChain agent.config options).evaluator fuel).task cx op).run w =
          (((protocolChain agent.config options).evaluator fuel).run cx op).run w := by
  have agrees : ∀ fuel, ((protocolChain agent.config options).evaluator fuel).Agrees :=
    ProtocolChain.evaluator_agrees h
  refine ⟨?_, agrees⟩
  unfold recalcTask recalc
  rw [ProtocolChain.taskPass_eq_pass agrees]

/-! ## A protocol of the host -/

namespace Counting

/-- A protocol that counts its evaluations and then evaluates the first argument. -/
def protocol : Protocol Nat where
  run ev cx op :=
    match op with
    | .custom _ _ (x :: _) _ => do
      modify fun w => { w with host := w.host + 1 }
      ev.run cx x
    | _ => Eval.fail (.host "no argument")
  task ev cx op :=
    match op with
    | .custom _ _ (x :: _) _ =>
      .step (fun w => { w with host := w.host + 1 }) fun _ => ev.task cx x
    | _ => Eval.fail (.host "no argument")

theorem protocol_agrees {ev : Evaluator Nat} (h : ev.Agrees) : protocol.Agrees ev := by
  intro cx op w
  cases op with
  | custom name result args payload =>
    cases args with
    | nil => rfl
    | cons x rest => exact h cx x { w with host := w.host + 1 }
  | _ => rfl

/-- The protocol for integers under one name. -/
def source : ProtocolSource Nat := fun key =>
  if key = ⟨.custom "counted", .scalar .int⟩ then some protocol else none

/-- A report of which one cell counts and another one reads it. -/
def report : Report :=
  let counted : OperationCell := ⟨some "counted", 1,
    .custom "counted" (.scalar .int) [.const (.int 3) (.scalar .int)] .null, .none⟩
  let reader : OperationCell := ⟨some "reader", 1,
    .cellValue (.inSection "counted" .none) (.scalar .int), .none⟩
  let row : Row := ⟨"row", [.operation reader, .operation counted], [], none, none⟩
  ⟨"report", [⟨"section", "", ⟨[⟨"left", ""⟩, ⟨"right", ""⟩], [], [row], []⟩⟩]⟩

theorem hostAgrees : (Agent.protocolChain .default ⟨[source], []⟩).HostAgrees [source] := by
  intro s hs key p hp fuel hev
  cases List.mem_singleton.1 hs
  unfold source at hp
  split at hp <;> cases hp
  exact protocol_agrees hev

/-- Both ways to recalculate the report evaluate the counted cell once. -/
theorem recalcTask_eq_recalc_counting :
    (Agent.ofReport report .default).recalcTask ⟨[source], []⟩ ⟨0, 0⟩ 0 =
        (Agent.ofReport report .default).recalc ⟨[source], []⟩ ⟨0, 0⟩ 0 ∧
      ((Agent.ofReport report .default).recalc ⟨[source], []⟩ ⟨0, 0⟩ 0).1 = .ok ⟨1, [], []⟩ ∧
        ((Agent.ofReport report .default).recalc ⟨[source], []⟩ ⟨0, 0⟩ 0).2.2 = 1 :=
  ⟨(Agent.recalcTask_eq_recalc (.ofReport report .default) ⟨[source], []⟩ ⟨0, 0⟩ 0 hostAgrees).1,
    rfl, rfl⟩

end Counting

end ReportCalc
