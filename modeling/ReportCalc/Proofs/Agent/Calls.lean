import ReportCalc.Proofs.Agent.Outcomes

/-!
# Calls of an agent

An agent is changed by setting inputs and by recalculations. Whatever calls are made, in whatever
order and however they end, the report stays the same up to what its inputs hold, and the index
stays the one of the report (`Agent.WellFormed.after`). One way for a recalculation to end is that
protocols of the host nest deeper than `hostDepth` allows.
-/

namespace ReportCalc

variable {σ : Type}

/-! ## Calls -/

/-- A call that may change an agent. A recalculation finds the state of the host's protocols as it
is by then. -/
inductive AgentCall (σ : Type) where
  | setInput (locator : Locator) (value : Option Value) (time : DateTime)
  | setTypedInput (kind : TypedKind) (locator : Locator) (value : Option kind.Carrier)
      (time : DateTime)
  | recalc (options : RecalcOptions σ) (time : DateTime) (host : σ)
  | recalcTask (options : RecalcOptions σ) (time : DateTime) (host : σ)

/-- What the call leaves of the agent. Setting an input that fails leaves it as it was. -/
def AgentCall.perform (agent : Agent) : AgentCall σ → Agent
  | .setInput locator value time => (agent.setInput locator value time).toOption.getD agent
  | .setTypedInput kind locator value time =>
    (agent.setTypedInput kind locator value time).toOption.getD agent
  | .recalc options time host => (agent.recalc options time host).2.1
  | .recalcTask options time host => (agent.recalcTask options time host).2.1

namespace Agent

/-- The agent after calls, one after the other. -/
def after (agent : Agent) (calls : List (AgentCall σ)) : Agent :=
  calls.foldl AgentCall.perform agent

variable {agent agent' : Agent} {time : DateTime}

@[simp] theorem after_nil : agent.after ([] : List (AgentCall σ)) = agent := rfl

@[simp] theorem after_cons (call : AgentCall σ) (calls : List (AgentCall σ)) :
    agent.after (call :: calls) = (call.perform agent).after calls := rfl

theorem after_append (calls more : List (AgentCall σ)) :
    agent.after (calls ++ more) = (agent.after calls).after more := List.foldl_append

/-- What every call keeps, all calls keep. -/
theorem after_induction {P : Agent → Prop} {calls : List (AgentCall σ)} (h : P agent)
    (hstep : ∀ agent, P agent → ∀ call ∈ calls, P (call.perform agent)) :
    P (agent.after calls) := by
  induction calls generalizing agent with
  | nil => exact h
  | cons call rest ih =>
    exact ih (hstep agent h call (List.mem_cons_self ..))
      fun agent h call hcall => hstep agent h call (List.mem_cons_of_mem _ hcall)

/-! ## What is kept -/

/-- Setting an input gives the agent with that input set, or leaves the agent as it is. -/
theorem setInput_cases (h : agent.report.WellFormed) (locator : Locator) (value : Option Value)
    (time : DateTime) :
    (∃ a c, agent.index.locate agent.report locator none = .ok a ∧
        agent.report.cellAt? a = some (.input c) ∧ c.check value = .ok () ∧
          agent.setInput locator value time =
            .ok { agent with report := agent.report.update (.setting time a value) }) ∨
      ∃ e, agent.setInput locator value time = .error e := by
  cases hset : agent.setInput locator value time with
  | error e => exact .inr ⟨e, rfl⟩
  | ok agent' =>
    obtain ⟨a, c, hlocate, hcell, hcheck, rfl⟩ := exists_of_setInput h hset
    exact .inl ⟨a, c, hlocate, hcell, hcheck, rfl⟩

/-- A recalculation clears inputs that held a value, and changes nothing else but the journal,
however it ends. -/
theorem exists_clearing_of_recalcBy (h : agent.report.WellFormed) (pass : Pass σ) (time : DateTime)
    (host : σ) :
    ∃ cleared, (∀ a ∈ cleared, ∃ c v, agent.report.cellAt? a = some (.input c) ∧ c.value = some v) ∧
      (agent.recalcBy pass time host).2.1 =
        { agent with
          report := agent.report.update (.clearing time cleared)
          journal := (agent.recalcBy pass time host).2.1.journal } := by
  cases hutc : time.isUtc with
  | false =>
    rw [recalcBy_of_not_utc hutc]
    exact ⟨[], List.forall_mem_nil _, by rw [Report.update_clearing_nil]⟩
  | true =>
    obtain ⟨s, e, hrun, hend, heq⟩ := recalcBy_ends h hutc pass host
    obtain ⟨cleared, hcleared, -⟩ := Round.exists_clearedInputs h hrun
    obtain ⟨_, -, hreport, -⟩ := hend.exists_pass
    refine ⟨cleared, fun a ha => ?_, ?_⟩
    · obtain ⟨c, v, hc, hv, -⟩ := hcleared.held a ha
      exact ⟨c, v, hc, hv⟩
    · have updated : e.report = agent.report.update (.clearing time cleared) :=
        hreport.trans hcleared.report_eq
      rw [heq, updated]

theorem WellFormed.update (h : agent.WellFormed) (u : InputUpdate) (journal : Journal) :
    { agent with report := agent.report.update u, journal }.WellFormed :=
  ⟨h.report.update, h.index.trans ReportIndex.build_update.symm⟩

theorem WellFormed.setInput (h : agent.WellFormed) {locator : Locator} {value : Option Value}
    (hset : agent.setInput locator value time = .ok agent') : agent'.WellFormed := by
  obtain ⟨a, c, -, -, -, rfl⟩ := exists_of_setInput h.report hset
  exact h.update _ _

/-- A recalculation keeps the report well-formed and the index in order, however it ends. -/
theorem WellFormed.recalcBy (h : agent.WellFormed) (pass : Pass σ) (time : DateTime) (host : σ) :
    (agent.recalcBy pass time host).2.1.WellFormed := by
  obtain ⟨cleared, -, heq⟩ := exists_clearing_of_recalcBy h.report pass time host
  rw [heq]
  exact h.update _ _

theorem WellFormed.perform (h : agent.WellFormed) (call : AgentCall σ) :
    (call.perform agent).WellFormed := by
  have set (locator : Locator) (value : Option Value) (time : DateTime) :
      ((agent.setInput locator value time).toOption.getD agent).WellFormed := by
    cases hset : agent.setInput locator value time with
    | error e => exact h
    | ok agent' => exact h.setInput hset
  cases call with
  | setInput => exact set _ _ _
  | setTypedInput => exact set _ _ _
  | recalc => exact h.recalcBy _ _ _
  | recalcTask => exact h.recalcBy _ _ _

theorem WellFormed.after (h : agent.WellFormed) (calls : List (AgentCall σ)) :
    (agent.after calls).WellFormed :=
  after_induction h fun _ h call _ => h.perform call

end Agent

end ReportCalc
