import ReportCalc.Proofs.Agent.Calls
import ReportCalc.Proofs.Report.History

/-!
# Inputs hold what was done to them

Every input logs what is done to it, and going through its log again gives what it holds. The log is
written next to the value, when an input is set and when a recalculation clears it, so the two might
drift apart; they do not, whatever calls of an agent are made and however they end
(`Agent.inputs_explained`). Each call has an effect on reports, which is an update of inputs
(`AgentCall.exists_update`), and so have all calls together (`Agent.exists_update_after`).
-/

namespace ReportCalc

variable {σ : Type}

/-! ## Going through a log -/

/-- What an input holds after the change, whatever it held before. -/
def InputChange.result : InputChange → Option Value
  | .applied value => value
  | .cleared _ => none

/-- What an input holds in the end, when at first it held this and these are the changes since. -/
def replay (initial : Option Value) (events : List InputEvent) : Option Value :=
  events.foldl (fun _ e => e.content.result) initial

theorem replay_append (initial : Option Value) (events more : List InputEvent) :
    replay initial (events ++ more) = replay (replay initial events) more := List.foldl_append

/-! ## What calls log -/

/-- What the input at an address holds, if there is one and it holds something. -/
def Report.heldAt? (r : Report) (a : CellAddress) : Option Value :=
  ((r.cellAt? a).bind Cell.input?).bind (·.value)

theorem Report.heldAt?_eq {r : Report} {a : CellAddress} {c : InputCell}
    (h : r.cellAt? a = some (.input c)) : r.heldAt? a = c.value := by
  rw [heldAt?, h]
  rfl

namespace Agent

/-- What setting an input logs at an address: one event when it succeeds and the locator leads
there. -/
def applied (agent : Agent) (a : CellAddress) (locator : Locator) (value : Option Value)
    (time : DateTime) : List InputEvent :=
  match agent.setInput locator value time, agent.index.locate agent.report locator none with
  | .ok _, .ok b => if a = b then [⟨time, .applied value⟩] else []
  | _, _ => []

/-- What a recalculation logs at an address: one event when the input there held something and holds
nothing any more. -/
def cleared (agent done : Agent) (a : CellAddress) (time : DateTime) : List InputEvent :=
  if (agent.report.heldAt? a).isSome && (done.report.heldAt? a).isNone then
    [⟨time, .cleared disabledReason⟩]
  else []

end Agent

/-- What the call logs for the input at an address. -/
def AgentCall.logged (agent : Agent) (a : CellAddress) : AgentCall σ → List InputEvent
  | .setInput locator value time => agent.applied a locator value time
  | .setTypedInput kind locator value time => agent.applied a locator (value.map kind.toValue) time
  | .recalc options time host => agent.cleared (agent.recalc options time host).2.1 a time
  | .recalcTask options time host => agent.cleared (agent.recalcTask options time host).2.1 a time

/-- What calls log for the input at an address, one after the other. -/
def Agent.inputHistory (agent : Agent) (a : CellAddress) : List (AgentCall σ) → List InputEvent
  | [] => []
  | call :: rest => call.logged agent a ++ (call.perform agent).inputHistory a rest

/-! ## What calls do to inputs -/

namespace InputUpdate

/-- The update logs these events for every input of the report, and inputs hold afterwards what
these changes make of what they held. -/
def Explains (u : InputUpdate) (r : Report) (events : CellAddress → List InputEvent) : Prop :=
  ∀ a c, r.cellAt? a = some (.input c) →
    (u.apply a c).inputs.events = c.inputs.events ++ events a ∧
      (u.apply a c).value = replay c.value (events a)

variable {u v : InputUpdate} {r : Report} {events more : CellAddress → List InputEvent}

theorem explains_identity : identity.Explains r fun _ => [] :=
  fun _ _ _ => ⟨(List.append_nil _).symm, rfl⟩

/-- One update after the other logs the events of both. -/
theorem Explains.followedBy (hu : u.Explains r events) (hv : v.Explains (r.update u) more)
    (hwf : r.WellFormed) : (u.followedBy v).Explains r fun a => events a ++ more a := by
  intro a c hc
  obtain ⟨hlog, hvalue⟩ := hu a c hc
  obtain ⟨hlog', hvalue'⟩ := hv a _ (Report.cellAt?_update_input hwf hc)
  constructor
  · exact hlog'.trans (by rw [hlog, List.append_assoc])
  · exact hvalue'.trans (by rw [hvalue, replay_append])

theorem explains_setting {b : CellAddress} {value : Option Value} {time : DateTime} :
    (setting time b value).Explains r fun a =>
      if a = b then [⟨time, .applied value⟩] else [] := by
  intro a c _
  by_cases h : a = b
  · simp [setting, h, EventLog.push, replay, InputChange.result]
  · simp [setting, h, replay]

end InputUpdate

open InputUpdate

namespace Agent

variable {agent : Agent}

/-- Setting an input is an update that logs the one event, if it succeeds. -/
theorem exists_update_setInput (h : agent.report.WellFormed) (locator : Locator)
    (value : Option Value) (time : DateTime) :
    ∃ u : InputUpdate,
      ((agent.setInput locator value time).toOption.getD agent).report = agent.report.update u ∧
        u.Explains agent.report (agent.applied · locator value time) := by
  rcases setInput_cases h locator value time with ⟨b, c, hlocate, -, -, hset⟩ | ⟨e, hset⟩
  · refine ⟨.setting time b value, by rw [hset]; rfl, ?_⟩
    simp only [applied, hset, hlocate]
    exact explains_setting
  · refine ⟨identity, ?_, ?_⟩
    · rw [hset]
      exact Report.update_identity.symm
    · simp only [applied, hset]
      exact explains_identity

/-- A recalculation is an update that logs one event for every input that it clears. -/
theorem exists_update_recalcBy (h : agent.report.WellFormed) (pass : Pass σ) (time : DateTime)
    (host : σ) :
    ∃ u : InputUpdate, (agent.recalcBy pass time host).2.1.report = agent.report.update u ∧
      u.Explains agent.report (agent.cleared (agent.recalcBy pass time host).2.1 · time) := by
  obtain ⟨cleared, hheld, heq⟩ := exists_clearing_of_recalcBy h pass time host
  have hreport : (agent.recalcBy pass time host).2.1.report =
      agent.report.update (.clearing time cleared) := congrArg Agent.report heq
  refine ⟨.clearing time cleared, hreport, fun a c hc => ?_⟩
  have hbefore := Report.heldAt?_eq hc
  have hafter := Report.heldAt?_eq (Report.cellAt?_update_input (u := .clearing time cleared) h hc)
  rw [← hreport] at hafter
  simp only [Agent.cleared, hbefore, hafter]
  by_cases ha : a ∈ cleared
  · obtain ⟨d, v, hd, hv⟩ := hheld a ha
    cases hc.symm.trans hd
    rw [clearing_of_mem ha]
    simp [InputCell.clearValue, hv, EventLog.push, replay, InputChange.result]
  · rw [clearing_of_not_mem ha]
    cases c.value <;> simp [replay]

end Agent

/-- What one call does to inputs. -/
theorem AgentCall.exists_update {agent : Agent} (h : agent.report.WellFormed) (call : AgentCall σ) :
    ∃ u : InputUpdate, (call.perform agent).report = agent.report.update u ∧
      u.Explains agent.report (call.logged agent ·) := by
  cases call with
  | setInput => exact Agent.exists_update_setInput h _ _ _
  | setTypedInput => exact Agent.exists_update_setInput h _ _ _
  | recalc => exact Agent.exists_update_recalcBy h _ _ _
  | recalcTask => exact Agent.exists_update_recalcBy h _ _ _

namespace Agent

/-- What calls do to inputs, one after the other. -/
theorem exists_update_after {agent : Agent} (h : agent.WellFormed) (calls : List (AgentCall σ)) :
    ∃ u : InputUpdate, (agent.after calls).report = agent.report.update u ∧
      u.Explains agent.report (agent.inputHistory · calls) := by
  induction calls generalizing agent with
  | nil => exact ⟨identity, Report.update_identity.symm, explains_identity⟩
  | cons call rest ih =>
    obtain ⟨u, hu, hlogged⟩ := call.exists_update h.report
    obtain ⟨v, hv, hhistory⟩ := ih (h.perform call)
    rw [hu] at hv hhistory
    exact ⟨u.followedBy v, hv.trans (Report.update_update fun _ _ => rfl),
      hlogged.followedBy hhistory h.report⟩

/-- The log of an input explains what the input holds. Take an agent of a report in which nothing
has been logged for inputs yet, and any calls, however they end. Then every input has logged one
event for each call that has set it and one for each recalculation that has cleared it, and nothing
else; going through these events from what it held at first gives what it holds now; and further
calls only append to the log. -/
theorem inputs_explained {report : Report} {config : Config} (hwf : report.WellFormed)
    (hempty : ∀ a c, report.cellAt? a = some (.input c) → c.inputs = .empty)
    (calls : List (AgentCall σ)) {a : CellAddress} {d : InputCell}
    (hd : ((ofReport report config).after calls).report.cellAt? a = some (.input d)) :
    ∃ c, report.cellAt? a = some (.input c) ∧
      d.inputs.events = (ofReport report config).inputHistory a calls ∧
      d.value = replay c.value d.inputs.events ∧
      ∀ more, ∃ e,
        ((ofReport report config).after (calls ++ more)).report.cellAt? a = some (.input e) ∧
          d.inputs.events <+: e.inputs.events := by
  have hagent : (ofReport report config).WellFormed := .ofReport hwf config
  obtain ⟨u, hu, hexplains⟩ := exists_update_after hagent calls
  rw [hu] at hd
  obtain ⟨c, hc, rfl⟩ := Report.exists_input_of_update hwf hd
  obtain ⟨hlog, hvalue⟩ := hexplains a c hc
  have hevents : (u.apply a c).inputs.events = (ofReport report config).inputHistory a calls := by
    rw [hlog, hempty a c hc]
    exact List.nil_append _
  refine ⟨c, hc, hevents, by rw [hevents, hvalue], fun more => ?_⟩
  obtain ⟨v, hv, hmore⟩ := exists_update_after (hagent.after calls) more
  rw [hu] at hv hmore
  obtain ⟨hgrows, -⟩ := hmore a _ hd
  rw [after_append, hv]
  exact ⟨_, Report.cellAt?_update_input hwf.update hd, _, hgrows.symm⟩

end Agent

/-! ## An input that is cleared and set again -/

namespace DisabledInput

def locator : Locator := .inReport "section" "discount" .none

/-- The input is cleared, set, refused a text, cleared again and set by its type. -/
def calls : List (AgentCall Unit) :=
  [.recalc .none ⟨0, 0⟩ (), .setInput locator (some (.int 7)) ⟨1, 0⟩,
    .setInput locator (some (.text "seven")) ⟨2, 0⟩, .recalcTask .none ⟨3, 0⟩ (),
    .setTypedInput (.plain .int) locator (some (8 : Int64)) ⟨4, 0⟩]

/-- What the input has logged in the end. -/
def history : List InputEvent :=
  [⟨⟨0, 0⟩, .cleared "cell disabled"⟩, ⟨⟨1, 0⟩, .applied (some (.int 7))⟩,
    ⟨⟨3, 0⟩, .cleared "cell disabled"⟩, ⟨⟨4, 0⟩, .applied (some (.int 8))⟩]

theorem inputs_report {a : CellAddress} {c : InputCell}
    (h : report.cellAt? a = some (.input c)) : c.inputs = .empty := by
  have hmem := (Report.mem_cells_iff wellFormed).2 h
  simp only [cells_report, List.mem_cons, Prod.mk.injEq, Cell.input.injEq, reduceCtorEq, and_false,
    List.not_mem_nil, or_false] at hmem
  rw [hmem.2]
  rfl

/-- The log explains the value, and the calls explain the log. -/
theorem inputs_explained_disabledInput :
    ∃ d, ((Agent.ofReport report .default).after calls).report.cellAt? ⟨position, 0, none⟩ =
        some (.input d) ∧
      d.inputs.events = (Agent.ofReport report .default).inputHistory ⟨position, 0, none⟩ calls ∧
        d.inputs.events = history ∧ d.value = replay (some (.int 5)) history := by
  have hd : ((Agent.ofReport report .default).after calls).report.cellAt? ⟨position, 0, none⟩ =
      some (.input { discount with value := some (.int 8), inputs := ⟨history⟩ }) := rfl
  obtain ⟨c, hc, hevents, hvalue, -⟩ := Agent.inputs_explained wellFormed
    (fun _ _ => inputs_report) calls hd
  cases hc
  exact ⟨_, hd, hevents, rfl, hvalue⟩

end DisabledInput

end ReportCalc
