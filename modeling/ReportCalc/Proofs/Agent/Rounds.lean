import ReportCalc.Proofs.Report.Inputs
import Mathlib.Logic.Relation

/-!
# The passes of a recalculation

A recalculation is a run of rounds: each is a pass over the report as the rounds before have left
it, and leads to a further round as long as it finds disabled inputs to clear (`Round.Reruns`). What
a run leads to is `Round.Reaches`, and `Round.Run` has the rounds on the way, too. The run ends in
one of three ways (`Round.Ends`), and it does end: every further round follows the clearing of a
value, and there are only so many (`Round.exists_ends`).
-/

namespace ReportCalc

variable {σ : Type} {pass : Pass σ} {config : Config} {time : DateTime}

/-! ## Findings -/

namespace Journal

variable {j : Journal} {r : Report} {a : CellAddress}

theorem mem_disabledInputs_iff : a ∈ (j.findings r).disabledInputs ↔
    ∃ cell, (a, cell) ∈ r.cells ∧ j.holdsDisabledValue a cell = true := by
  simp [findings]

theorem nodup_disabledInputs (h : r.WellFormed) : (j.findings r).disabledInputs.Nodup :=
  (List.filter_sublist.map _).nodup (Report.nodup_cells h)

/-- An input that is found disabled with a value is an input with a value that is not absent. -/
theorem holdsDisabledValue_iff {cell : Cell} : j.holdsDisabledValue a cell = true ↔
    j.availabilityState a cell = .disabled ∧
      ∃ c v, cell = .input c ∧ c.value = some v ∧ v.isNull = false := by
  cases cell with
  | input c => cases h : c.value <;> simp [holdsDisabledValue, Cell.input?, h]
  | _ => simp [holdsDisabledValue, Cell.input?]

/-- Only cells with a chain have a verdict that is unknown. -/
theorem hasUnknownVerdict_iff {cell : Cell} : j.hasUnknownVerdict a cell = true ↔
    (cell.validation?.isSome ∧
        (j.validationState a cell = .unknown ∨ j.validationState a cell = .failed)) ∨
      cell.availability?.isSome ∧ j.availabilityState a cell = .unknown := by
  cases hrules : cell.rules? with
  | none => simp [hasUnknownVerdict, Cell.validation?, Cell.availability?, hrules]
  | some rules =>
    cases hvalidation : rules.validation <;> cases havailability : rules.availability <;>
      simp [hasUnknownVerdict, validationState, availabilityState, Cell.validation?,
        Cell.availability?, hrules, hvalidation, havailability]

/-- What a pass found disabled are inputs of the report. -/
theorem input_of_mem_disabledInputs (h : r.WellFormed) (ha : a ∈ (j.findings r).disabledInputs) :
    ∃ c v, r.cellAt? a = some (.input c) ∧ c.value = some v ∧ v.isNull = false ∧
      j.availabilityState a (.input c) = .disabled := by
  obtain ⟨cell, hmem, hheld⟩ := mem_disabledInputs_iff.1 ha
  obtain ⟨hdisabled, c, v, rfl, hv, hnull⟩ := holdsDisabledValue_iff.1 hheld
  exact ⟨c, v, (Report.mem_cells_iff h).1 hmem, hv, hnull, hdisabled⟩

end Journal

theorem Findings.isFinal_eq_false_iff {f : Findings} :
    f.isFinal = false ↔ f.unknownVerdict = false ∧ f.disabledInputs ≠ [] := by
  simp [isFinal]

/-! ## Held inputs -/

/-- Whether a cell is an input that holds a value. -/
def Cell.holdsInput (cell : Cell) : Bool := cell.input?.any fun c => c.value.any (!·.isNull)

private theorem countP_lt_countP {α : Type} {l : List α} {p q : α → Bool}
    (h : ∀ x ∈ l, q x = true → p x = true) {x : α} (hx : x ∈ l) (hp : p x = true)
    (hq : q x = false) : l.countP q < l.countP p := by
  obtain ⟨before, after, rfl⟩ := List.append_of_mem hx
  have hbefore : before.countP q ≤ before.countP p :=
    List.countP_mono_left fun y hy => h y (by simp [hy])
  have hafter : after.countP q ≤ after.countP p :=
    List.countP_mono_left fun y hy => h y (by simp [hy])
  simp only [List.countP_append, List.countP_cons, hp, hq]
  simp only [if_true, Bool.false_eq_true, if_false]
  omega

/-- Clearing inputs of which one holds a value leaves fewer of them. -/
theorem Report.heldInputs_clearing_lt {r : Report} (h : r.WellFormed) {cleared : List CellAddress}
    {a : CellAddress} (ha : a ∈ cleared) {cell : Cell} (hcell : r.cellAt? a = some cell)
    (hheld : cell.holdsInput = true) :
    (r.update (.clearing time cleared)).heldInputs < r.heldInputs := by
  have kept (a : CellAddress) (cell : Cell)
      (hc : (cell.update (.clearing time cleared) a).holdsInput = true) :
      cell.holdsInput = true := by
    rw [Cell.holdsInput, Cell.input?_update] at hc
    rw [Cell.holdsInput]
    cases hinput : cell.input? with
    | none => simp [hinput] at hc
    | some c =>
      by_cases hmem : a ∈ cleared
      · simp [hinput, InputUpdate.clearing_of_mem hmem, InputCell.clearValue] at hc
      · simpa [hinput, InputUpdate.clearing_of_not_mem hmem] using hc
  have dropped : (cell.update (.clearing time cleared) a).holdsInput = false := by
    rw [Cell.holdsInput, Cell.input?_update]
    cases cell.input? with
    | none => rfl
    | some c => simp [InputUpdate.clearing_of_mem ha, InputCell.clearValue]
  unfold heldInputs
  rw [cells_update, List.countP_map]
  exact countP_lt_countP (fun e _ => kept e.1 e.2) ((mem_cells_iff h).2 hcell) hheld dropped

/-! ## Rounds -/

/-- Where a recalculation is before a pass: the report and the world that the pass starts from, and
what the passes before have done. -/
structure Round (σ : Type) where
  report : Report
  world : World σ
  summary : RecalcSummary

namespace Round

/-- The round after a pass that has left this world behind. -/
def next (s : Round σ) (time : DateTime) (w : World σ) : Round σ :=
  let findings := w.journal.findings s.report
  let cleared := s.report.clearInputs time findings.disabledInputs
  ⟨cleared.1, w, {
    passes := s.summary.passes + 1
    clearedInputs := s.summary.clearedInputs ++ cleared.2
    failedCells := findings.failedCells }⟩

/-- The limit on the number of passes that is reached with one more pass. -/
def limit? (s : Round σ) (config : Config) : Option PassLimit :=
  config.maxPasses.filter (·.passes ≤ s.summary.passes + 1)

/-- A pass ends, finds disabled inputs and every verdict known, and may be followed by another. -/
inductive Reruns (pass : Pass σ) (config : Config) (time : DateTime) : Round σ → Round σ → Prop
  | intro {s : Round σ} {w : World σ} (hpass : pass s.report s.world = (.ok (), w))
      (hmore : (w.journal.findings s.report).isFinal = false) (hlimit : s.limit? config = none) :
      Reruns pass config time s (s.next time w)

/-- What the pass of a round finds disabled and still holding a value. -/
def disabledInputs (s : Round σ) (pass : Pass σ) : List CellAddress :=
  ((pass s.report s.world).2.journal.findings s.report).disabledInputs

theorem disabledInputs_eq {s : Round σ} {result : Except Interrupt Unit} {w : World σ}
    (hpass : pass s.report s.world = (result, w)) :
    s.disabledInputs pass = (w.journal.findings s.report).disabledInputs := by
  rw [disabledInputs, hpass]

/-- How a recalculation ends with the pass of a round: the pass is interrupted, leaves nothing to
clear, or may not be followed by another one. -/
inductive Ends (pass : Pass σ) (config : Config) (s : Round σ) : RecalcEnd σ → Prop
  | interrupted {i : Interrupt} {w : World σ} (hpass : pass s.report s.world = (.error i, w)) :
      Ends pass config s ⟨.error i, s.report, w⟩
  | finished {w : World σ} (hpass : pass s.report s.world = (.ok (), w))
      (hfinal : (w.journal.findings s.report).isFinal = true) :
      Ends pass config s ⟨.ok { s.summary with
        passes := s.summary.passes + 1
        failedCells := (w.journal.findings s.report).failedCells }, s.report, w⟩
  | limited {limit : PassLimit} {w : World σ} (hpass : pass s.report s.world = (.ok (), w))
      (hmore : (w.journal.findings s.report).isFinal = false)
      (hlimit : s.limit? config = some limit) :
      Ends pass config s ⟨.error (.error (.rerunLimitExceeded limit.passes)), s.report, w⟩

/-- However a recalculation ends, its last pass has left the report as it was, and when that pass is
interrupted so is the recalculation. -/
theorem Ends.exists_pass {s : Round σ} {e : RecalcEnd σ} (h : s.Ends pass config e) :
    ∃ r, pass s.report s.world = (r, e.world) ∧ e.report = s.report ∧
      (r = .ok () ∨ ∃ i, r = .error i ∧ e.result = .error i) := by
  cases h with
  | interrupted hpass => exact ⟨_, hpass, rfl, .inr ⟨_, rfl, rfl⟩⟩
  | finished hpass => exact ⟨_, hpass, rfl, .inl rfl⟩
  | limited hpass => exact ⟨_, hpass, rfl, .inl rfl⟩

/-- A recalculation succeeds with a pass that no further one follows, and lists what was cleared
after the passes before. -/
theorem Ends.of_ok {s : Round σ} {e : RecalcEnd σ} (h : s.Ends pass config e)
    {summary : RecalcSummary} (hok : e.result = .ok summary) :
    (e.world.journal.findings e.report).isFinal = true ∧
      summary.clearedInputs = s.summary.clearedInputs := by
  cases h with
  | finished _ hfinal =>
    cases hok
    exact ⟨hfinal, rfl⟩
  | _ => cases hok

/-- The report of the next round is the same up to the inputs that the pass found disabled. -/
theorem report_next {s : Round σ} (h : s.report.WellFormed) (w : World σ) :
    (s.next time w).report =
        s.report.update (.clearing time (w.journal.findings s.report).disabledInputs) ∧
      (s.next time w).summary.clearedInputs = s.summary.clearedInputs ++
        (w.journal.findings s.report).disabledInputs.map s.report.labelAt := by
  have inputs : ∀ a ∈ (w.journal.findings s.report).disabledInputs,
      ∃ c, s.report.cellAt? a = some (.input c) := fun a ha =>
    have ⟨c, _, hc, _⟩ := Journal.input_of_mem_disabledInputs h ha
    ⟨c, hc⟩
  have cleared : s.report.clearInputs time (w.journal.findings s.report).disabledInputs = _ :=
    Report.clearInputs_eq h (Journal.nodup_disabledInputs h) inputs
  exact ⟨congrArg Prod.fst cleared, congrArg (s.summary.clearedInputs ++ Prod.snd ·) cleared⟩

theorem heldInputs_lt_of_reruns {s t : Round σ} (h : s.report.WellFormed)
    (hst : Reruns pass config time s t) : t.report.heldInputs < s.report.heldInputs := by
  rcases hst with @⟨w, -, hmore, -⟩
  obtain ⟨a, ha⟩ := List.exists_mem_of_ne_nil _ (Findings.isFinal_eq_false_iff.1 hmore).2
  obtain ⟨c, v, hc, hv, hnull, -⟩ := Journal.input_of_mem_disabledInputs h ha
  rw [(report_next h w).1]
  exact Report.heldInputs_clearing_lt h ha hc (by simp [Cell.holdsInput, Cell.input?, hv, hnull])

theorem wellFormed_of_reruns {s t : Round σ} (h : s.report.WellFormed)
    (hst : Reruns pass config time s t) : t.report.WellFormed := by
  rcases hst with @⟨w, -, -, -⟩
  rw [(report_next h w).1]
  exact h.update

end Round

/-- The rounds that a run leads to. -/
abbrev Round.Reaches (pass : Pass σ) (config : Config) (time : DateTime) :
    Round σ → Round σ → Prop := Relation.ReflTransGen (Round.Reruns pass config time)

/-- A run with the rounds that it goes through before the last one, in this order. -/
inductive Round.Run (pass : Pass σ) (config : Config) (time : DateTime) (start : Round σ) :
    List (Round σ) → Round σ → Prop
  | refl : Run pass config time start [] start
  | tail {rounds : List (Round σ)} {s t : Round σ} (hrun : Run pass config time start rounds s)
      (hstep : Reruns pass config time s t) : Run pass config time start (rounds ++ [s]) t

section Run
variable {start s : Round σ} {rounds : List (Round σ)}

theorem Round.Run.reaches (h : Run pass config time start rounds s) :
    Reaches pass config time start s := by
  induction h with
  | refl => exact .refl
  | tail _ hstep ih => exact ih.tail hstep

theorem Round.Run.reaches_of_mem (h : Run pass config time start rounds s) :
    ∀ t ∈ rounds, Reaches pass config time start t := by
  induction h with
  | refl => exact List.forall_mem_nil _
  | tail hrun _ ih =>
    rw [List.forall_mem_append, List.forall_mem_singleton]
    exact ⟨ih, hrun.reaches⟩

theorem Round.exists_run (h : Reaches pass config time start s) :
    ∃ rounds, Run pass config time start rounds s := by
  induction h with
  | refl => exact ⟨[], .refl⟩
  | tail _ hstep ih =>
    obtain ⟨rounds, hrun⟩ := ih
    exact ⟨_, hrun.tail hstep⟩

end Run

/-! ## The loop -/

section Loop
variable {s t : Round σ} {e : RecalcEnd σ} {fuel : Nat}

theorem Round.Ends.recalcRounds_eq (h : s.Ends pass config e) :
    recalcRounds pass config time (fuel + 1) s.report s.world s.summary = e := by
  rw [recalcRounds]
  cases h with
  | interrupted hpass => simp only [hpass]
  | finished hpass hfinal => simp only [hpass, hfinal, if_true]
  | limited hpass hmore hlimit =>
    unfold Round.limit? at hlimit
    simp [hpass, hmore, hlimit]

theorem Round.Reruns.recalcRounds_eq (h : Reruns pass config time s t) :
    recalcRounds pass config time (fuel + 1) s.report s.world s.summary =
      recalcRounds pass config time fuel t.report t.world t.summary := by
  rcases h with ⟨hpass, hmore, hlimit⟩
  unfold Round.limit? at hlimit
  rw [recalcRounds]
  simp [hpass, hmore, hlimit, Round.next]

/-- A recalculation that is given enough rounds ends as its run does. -/
theorem recalcRounds_eq (h : s.report.WellFormed) (hrun : Round.Reaches pass config time s t)
    (hend : t.Ends pass config e) (hfuel : s.report.heldInputs < fuel) :
    recalcRounds pass config time fuel s.report s.world s.summary = e := by
  induction hrun using Relation.ReflTransGen.head_induction_on generalizing fuel with
  | refl =>
    obtain ⟨fuel, rfl⟩ := Nat.exists_eq_add_one_of_ne_zero (Nat.ne_of_gt (Nat.zero_lt_of_lt hfuel))
    exact hend.recalcRounds_eq
  | head hst _ ih =>
    obtain ⟨fuel, rfl⟩ := Nat.exists_eq_add_one_of_ne_zero (Nat.ne_of_gt (Nat.zero_lt_of_lt hfuel))
    have held := Round.heldInputs_lt_of_reruns h hst
    rw [hst.recalcRounds_eq]
    exact ih (Round.wellFormed_of_reruns h hst) (by omega)

end Loop

/-- After the pass of a round the run ends or goes on. -/
theorem Round.ends_or_reruns (pass : Pass σ) (config : Config) (time : DateTime) (s : Round σ) :
    (∃ e, s.Ends pass config e) ∨ ∃ t, Reruns pass config time s t := by
  rcases hpass : pass s.report s.world with ⟨result, w⟩
  cases result with
  | error i => exact .inl ⟨_, .interrupted hpass⟩
  | ok _ =>
    cases hfinal : (w.journal.findings s.report).isFinal with
    | true => exact .inl ⟨_, .finished hpass hfinal⟩
    | false =>
      cases hlimit : s.limit? config with
      | some limit => exact .inl ⟨_, .limited hpass hfinal hlimit⟩
      | none => exact .inr ⟨_, .intro hpass hfinal hlimit⟩

/-- A run ends. The induction is on the number of inputs that hold a value, of which every further
round leaves fewer. -/
theorem Round.exists_ends (pass : Pass σ) (config : Config) (time : DateTime) {s : Round σ}
    (h : s.report.WellFormed) :
    ∃ t e, Reaches pass config time s t ∧ t.Ends pass config e := by
  induction hheld : s.report.heldInputs using Nat.strongRecOn generalizing s with
  | ind n ih =>
    subst hheld
    rcases s.ends_or_reruns pass config time with ⟨e, hend⟩ | ⟨t, hst⟩
    · exact ⟨s, e, .refl, hend⟩
    · obtain ⟨u, e, hrun, hend⟩ := ih _ (heldInputs_lt_of_reruns h hst)
        (wellFormed_of_reruns h hst) rfl
      exact ⟨u, e, .head hst hrun, hend⟩

namespace Agent

/-- The passes of a recalculation. -/
abbrev recalcPass (agent : Agent) (options : RecalcOptions σ) (time : DateTime) : Pass σ :=
  (protocolChain agent.config options).pass agent.index time

/-- The first round of a recalculation. -/
def firstRound (agent : Agent) (host : σ) : Round σ :=
  ⟨agent.report, ⟨agent.journal, host⟩, ⟨0, [], []⟩⟩

/-- A recalculation as of a time in UTC ends as its run does. -/
theorem recalcBy_eq {agent : Agent} (h : agent.report.WellFormed) (hutc : time.isUtc = true)
    {host : σ} {s : Round σ} {e : RecalcEnd σ}
    (hrun : Round.Reaches pass agent.config time (agent.firstRound host) s)
    (hend : s.Ends pass agent.config e) : agent.recalcBy pass time host =
      (e.result, { agent with report := e.report, journal := e.world.journal }, e.world.host) := by
  have done : recalcRounds pass agent.config time (agent.report.heldInputs + 1) agent.report
      ⟨agent.journal, host⟩ ⟨0, [], []⟩ = e := recalcRounds_eq h hrun hend (Nat.lt_succ_self _)
  simp only [recalcBy, DateTime.ensureUtc, hutc, if_true, done]

/-- A recalculation as of a time in UTC ends with the pass of a round that its run reaches. -/
theorem recalcBy_ends {agent : Agent} (h : agent.report.WellFormed) (hutc : time.isUtc = true)
    (pass : Pass σ) (host : σ) :
    ∃ s e, Round.Reaches pass agent.config time (agent.firstRound host) s ∧
      s.Ends pass agent.config e ∧ agent.recalcBy pass time host = (e.result,
        { agent with report := e.report, journal := e.world.journal }, e.world.host) := by
  have hfirst : (agent.firstRound host).report.WellFormed := h
  obtain ⟨s, e, hrun, hend⟩ := Round.exists_ends pass agent.config time hfirst
  exact ⟨s, e, hrun, hend, recalcBy_eq h hutc hrun hend⟩

/-- A time that is not in UTC leaves everything as it is. -/
theorem recalcBy_of_not_utc {agent : Agent} (hutc : time.isUtc = false) (pass : Pass σ) (host : σ) :
    agent.recalcBy pass time host = (.error (.error (.nonUtcTimestamp time)), agent, host) := by
  simp [recalcBy, DateTime.ensureUtc, hutc]

end Agent

end ReportCalc
