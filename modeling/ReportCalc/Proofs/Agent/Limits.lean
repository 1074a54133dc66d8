import ReportCalc.Proofs.Agent.Termination

/-!
# The limit on passes

A limit on the passes of a recalculation cuts its run off and changes nothing else
(`Agent.recalc_limited`). With room for every pass the recalculation ends as it does without a
limit. With less room it stops after the last pass that fits, before the inputs that this pass has
found disabled are cleared (`Round.CutOff`). A pass in which protocols of the host nest deeper than
`hostDepth` allows is one that is interrupted.
-/

namespace ReportCalc

variable {σ : Type} {pass : Pass σ} {config : Config} {time : DateTime}

/-- The agent with this limit on the passes of its recalculations. -/
def Agent.limited (agent : Agent) (limit : PassLimit) : Agent :=
  { agent with config := agent.config.withMaxPasses limit }

namespace Round

variable {start s t last : Round σ} {e : RecalcEnd σ} {limit : PassLimit}

/-! ## Runs with and without a limit -/

theorem limit?_of_unlimited (h : config.maxPasses = none) : s.limit? config = none := by
  rw [limit?, h, Option.filter_none]

theorem limit?_withMaxPasses : s.limit? (config.withMaxPasses limit) =
    if limit.passes ≤ s.summary.passes + 1 then some limit else none := by
  simp [limit?, Config.withMaxPasses, Option.filter]

theorem Reruns.passes_eq (h : Reruns pass config time s t) :
    t.summary.passes = s.summary.passes + 1 := by
  cases h
  rfl

/-- A limit leaves the rounds alone as long as another pass is within it. -/
theorem Reruns.withMaxPasses (h : Reruns pass config time s t)
    (hroom : t.summary.passes < limit.passes) :
    Reruns pass (config.withMaxPasses limit) time s t := by
  rw [h.passes_eq] at hroom
  rcases h with ⟨hpass, hmore, -⟩
  exact .intro hpass hmore (by rw [limit?_withMaxPasses, if_neg (Nat.not_le.2 hroom)])

theorem Reaches.withMaxPasses (h : Reaches pass config time s t)
    (hroom : t.summary.passes < limit.passes) :
    Reaches pass (config.withMaxPasses limit) time s t := by
  induction h with
  | refl => exact .refl
  | tail _ hstep ih =>
    refine (ih ?_).tail (hstep.withMaxPasses hroom)
    rw [hstep.passes_eq] at hroom
    exact Nat.lt_of_succ_lt hroom

/-- A run that ends without a limit has not been cut off, so its last pass ends it with any. -/
theorem Ends.withMaxPasses (h : s.Ends pass config e) (hunlimited : config.maxPasses = none) :
    s.Ends pass (config.withMaxPasses limit) e := by
  cases h with
  | interrupted hpass => exact .interrupted hpass
  | finished hpass hfinal => exact .finished hpass hfinal
  | limited _ _ hlimit =>
    rw [limit?_of_unlimited hunlimited] at hlimit
    cases hlimit

/-- A run goes through rounds with every number of passes up to its last one. -/
theorem Reaches.exists_reruns (h : Reaches pass config time s last) (passes : Nat)
    (hfrom : s.summary.passes ≤ passes) (hto : passes < last.summary.passes) :
    ∃ t u, Reaches pass config time s t ∧ t.summary.passes = passes ∧
      Reruns pass config time t u ∧ Reaches pass config time u last := by
  induction h with
  | refl => exact absurd (Nat.lt_of_le_of_lt hfrom hto) (Nat.lt_irrefl _)
  | @tail t last hrun hstep ih =>
    rw [hstep.passes_eq] at hto
    rcases Nat.lt_or_eq_of_le (Nat.le_of_lt_succ hto) with hbefore | hlast
    · obtain ⟨u, v, hu, hpasses, huv, hv⟩ := ih hbefore
      exact ⟨u, v, hu, hpasses, huv, hv.tail hstep⟩
    · exact ⟨t, last, hrun, hlast.symm, hstep, .refl⟩

/-! ## Where a limit cuts off -/

/-- The round of a run, with what its pass leaves behind, after which a limit lets no further pass
follow. The inputs that were cleared after the passes before it are still cleared, and those that
its own pass has found disabled hold what they held at the start. -/
structure CutOff (pass : Pass σ) (config : Config) (time : DateTime) (start last : Round σ)
    (limit : PassLimit) (s : Round σ) (w : World σ) : Prop where
  reached : Reaches pass config time start s
  number : s.summary.passes + 1 = limit.passes
  passed : pass s.report s.world = (.ok (), w)
  continues : Reaches pass config time (s.next time w) last
  changed : ∃ cleared, ClearedInputs pass config time start s.report cleared ∧
    s.summary.clearedInputs = start.summary.clearedInputs ++ cleared.map start.report.labelAt
  cleared : ∀ t u, Reaches pass config time start t → Reruns pass config time t u →
    Reaches pass config time u s → ∀ a ∈ t.disabledInputs pass,
      ∃ c, s.report.cellAt? a = some (.input c) ∧ c.value = none
  found : (w.journal.findings s.report).isFinal = false
  held : ∀ a ∈ s.disabledInputs pass, ∃ c v, start.report.cellAt? a = some (.input c) ∧
    s.report.cellAt? a = some (.input c) ∧ c.value = some v ∧ v.isNull = false

/-- What a pass has found disabled holds no value in any later round. -/
theorem value_eq_none_of_reruns (h : t.report.WellFormed) (hst : Reruns pass config time t start)
    (hrun : Reaches pass config time start s) {a : CellAddress} (ha : a ∈ t.disabledInputs pass) :
    ∃ c, s.report.cellAt? a = some (.input c) ∧ c.value = none := by
  obtain ⟨rounds, hrun⟩ := exists_run hrun
  obtain ⟨hmore, -⟩ := (hst.clearedInputs h).extend h (.single hst) hrun
  obtain ⟨c, -, hc, -, -, -⟩ := Journal.input_of_mem_disabledInputs h ha
  refine ⟨InputUpdate.apply (.clearing time (t.disabledInputs pass ++
    rounds.flatMap (·.disabledInputs pass))) a c, ?_, ?_⟩
  · rw [hmore.report_eq, Report.cellAt?_update h, hc]
    rfl
  · rw [InputUpdate.clearing_of_mem (List.mem_append_left _ ha)]
    rfl

/-- An input that is found disabled with a value is as it was at the start. -/
theorem ClearedInputs.cellAt?_of_mem_disabledInputs (hstart : start.report.WellFormed)
    {report : Report} {cleared : List CellAddress}
    (h : ClearedInputs pass config time start report cleared) {j : Journal} {a : CellAddress}
    (ha : a ∈ (j.findings report).disabledInputs) :
    ∃ c v, start.report.cellAt? a = some (.input c) ∧ report.cellAt? a = some (.input c) ∧
      c.value = some v ∧ v.isNull = false := by
  obtain ⟨hfresh, c, v, hc, hv, hnull⟩ := h.input_of_mem_disabledInputs hstart ha
  refine ⟨c, v, hc, ?_, hv, hnull⟩
  have kept : Cell.update (.clearing time cleared) a (.input c) = .input c :=
    congrArg Cell.input (InputUpdate.clearing_of_not_mem hfresh c)
  rw [h.report_eq, Report.cellAt?_update hstart, hc, Option.map_some, kept]

/-- A run that goes on after the last pass within a limit is cut off there. -/
theorem Reaches.exists_cutOff (h : Reaches pass config time start last)
    (hstart : start.report.WellFormed) (hfrom : start.summary.passes < limit.passes)
    (hto : limit.passes ≤ last.summary.passes) :
    ∃ s w, CutOff pass config time start last limit s w := by
  have hnumber : limit.passes - 1 + 1 = limit.passes := Nat.sub_add_cancel limit.pos
  obtain ⟨s, t, hrun, hpasses, hst, hlast⟩ := h.exists_reruns (limit.passes - 1)
    (by omega) (by omega)
  obtain ⟨cleared, hcleared, hlabels⟩ := exists_clearedInputs hstart hrun
  rcases hst with @⟨w, hpass, hmore, -⟩
  exact ⟨s, w, {
    reached := hrun
    number := hpasses ▸ hnumber
    passed := hpass
    continues := hlast
    changed := ⟨cleared, hcleared, hlabels⟩
    cleared := fun t u ht htu hu a ha =>
      have ⟨_, before, _⟩ := exists_clearedInputs hstart ht
      value_eq_none_of_reruns (before.report_eq ▸ hstart.update) htu hu ha
    found := hmore
    held := fun a ha =>
      hcleared.cellAt?_of_mem_disabledInputs hstart (disabledInputs_eq hpass ▸ ha) }⟩

theorem CutOff.ends {w : World σ} (h : CutOff pass config time start last limit s w) :
    s.Ends pass (config.withMaxPasses limit)
      ⟨.error (.error (.rerunLimitExceeded limit.passes)), s.report, w⟩ :=
  .limited h.passed h.found (by rw [limit?_withMaxPasses, if_pos (Nat.le_of_eq h.number.symm)])

theorem CutOff.reaches {w : World σ} (h : CutOff pass config time start last limit s w) :
    Reaches pass (config.withMaxPasses limit) time start s :=
  Reaches.withMaxPasses h.reached (Nat.lt_of_succ_le (Nat.le_of_eq h.number))

end Round

/-! ## Recalculations with a limit -/

/-- What a limit on the passes does to a recalculation as of a time in UTC, whatever the protocols
of the host. Let the recalculation without a limit end in its last round. With room for as many
passes it ends with the same result and leaves the same behind. With less room its error names the
limit, and it leaves behind what the run had at the end of the last pass that fits. A pass that
leaves an unknown verdict or nothing to clear ends the recalculation under any settings. -/
theorem Agent.recalc_limited {agent : Agent} {options : RecalcOptions σ} {host : σ}
    (h : agent.report.WellFormed) (hutc : time.isUtc = true)
    (hunlimited : agent.config.maxPasses = none) (limit : PassLimit) :
    (∃ last e, Round.Reaches (agent.recalcPass options time) agent.config time
          (agent.firstRound host) last ∧
        last.Ends (agent.recalcPass options time) agent.config e ∧
        agent.recalc options time host = (e.result,
          { agent with report := e.report, journal := e.world.journal }, e.world.host) ∧
        (last.summary.passes + 1 ≤ limit.passes →
          (agent.limited limit).recalc options time host = (e.result,
            { agent.limited limit with report := e.report, journal := e.world.journal },
            e.world.host)) ∧
        (limit.passes < last.summary.passes + 1 →
          ∃ s w, Round.CutOff (agent.recalcPass options time) agent.config time
              (agent.firstRound host) last limit s w ∧
            (agent.limited limit).recalc options time host =
              (.error (.error (.rerunLimitExceeded limit.passes)),
                { agent.limited limit with report := s.report, journal := w.journal }, w.host))) ∧
      ∀ (s : Round σ) (w : World σ), agent.recalcPass options time s.report s.world = (.ok (), w) →
        ((w.journal.findings s.report).unknownVerdict = true ∨
          (w.journal.findings s.report).disabledInputs = []) →
        ∀ (config : Config) (rounds : Nat),
          recalcRounds (agent.recalcPass options time) config time (rounds + 1) s.report s.world
              s.summary =
            ⟨.ok ⟨s.summary.passes + 1, s.summary.clearedInputs,
              (w.journal.findings s.report).failedCells⟩, s.report, w⟩ := by
  have hlimited : (agent.limited limit).report.WellFormed := h
  constructor
  · obtain ⟨last, e, hrun, hend, heq⟩ := recalcBy_ends h hutc (agent.recalcPass options time) host
    refine ⟨last, e, hrun, hend, heq, fun hroom => ?_, fun hshort => ?_⟩
    · exact recalcBy_eq hlimited hutc (Round.Reaches.withMaxPasses hrun hroom)
        (hend.withMaxPasses hunlimited)
    · obtain ⟨s, w, hcut⟩ := Round.Reaches.exists_cutOff hrun h limit.pos (Nat.le_of_lt_succ hshort)
      exact ⟨s, w, hcut, recalcBy_eq hlimited hutc hcut.reaches hcut.ends⟩
  · intro s w hpass hstop config rounds
    have hfinal : (w.journal.findings s.report).isFinal = true := by
      rcases hstop with hunknown | hnone
      · simp [Findings.isFinal, hunknown]
      · simp [Findings.isFinal, hnone]
    exact (Round.Ends.finished hpass hfinal).recalcRounds_eq

/-- The input that is always disabled takes two passes. A limit of two lets both run, and a limit of
one lets the first end, which has not cleared the input yet. -/
theorem Agent.recalc_limited_disabledInput :
    ((ofReport DisabledInput.report .default).limited ⟨2, by decide⟩ |>.recalc .none ⟨0, 0⟩ ()).1 =
        .ok ⟨2, ["discount"], []⟩ ∧
      ((ofReport DisabledInput.report .default).limited ⟨1, by decide⟩ |>.recalc .none ⟨0, 0⟩ ()).1
        = .error (.error (.rerunLimitExceeded 1)) := by
  have limits := @recalc_limited Unit ⟨0, 0⟩ (ofReport DisabledInput.report .default) .none ()
    DisabledInput.wellFormed rfl rfl
  have passes {last : Round Unit} {e : RecalcEnd Unit}
      (hend : last.Ends ((ofReport DisabledInput.report .default).recalcPass .none ⟨0, 0⟩)
        .default e) (he : e.result = .ok ⟨2, ["discount"], []⟩) : last.summary.passes + 1 = 2 := by
    cases hend with
    | finished => exact congrArg RecalcSummary.passes (Except.ok.inj he)
    | _ => cases he
  constructor
  · obtain ⟨⟨last, e, -, hend, heq, hroom, -⟩, -⟩ := limits ⟨2, by decide⟩
    have he : e.result = .ok ⟨2, ["discount"], []⟩ := (congrArg Prod.fst heq).symm
    rw [hroom (Nat.le_of_eq (passes hend he)), he]
  · obtain ⟨⟨last, e, -, hend, heq, -, hshort⟩, -⟩ := limits ⟨1, by decide⟩
    have he : e.result = .ok ⟨2, ["discount"], []⟩ := (congrArg Prod.fst heq).symm
    obtain ⟨s, w, -, hcut⟩ := hshort (Nat.lt_of_lt_of_eq Nat.one_lt_two (passes hend he).symm)
    rw [hcut]

end ReportCalc
