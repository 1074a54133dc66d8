import ReportCalc.Proofs.Agent.Outcomes
import Mathlib.Data.List.Perm.Subperm

/-!
# Recalculations end

The loop of a recalculation has no bound of its own, but it ends when its passes do. Every further
round follows the clearing of an input that held a value, and an input that is cleared holds none
for the rest of the run (`Round.disjoint_disabledInputs`). So there are at most as many further
rounds as inputs with a value that can be disabled (`Agent.recalc_terminates`), whatever the
protocols of the host record. That a pass ends includes that these protocols nest no deeper than
`hostDepth` allows; with built-in protocols the passes over an acyclic report do end
(`Agent.recalcPass_ne_outOfFuel`).
-/

namespace ReportCalc

variable {σ : Type} {pass : Pass σ} {config : Config} {time : DateTime}

/-! ## Passes that end -/

namespace Plain

variable {base : Context} (hwf : base.report.WellFormed) (hacyclic : base.report.Acyclic)
  (hindex : base.index = .build base.report)
include hwf hacyclic hindex

/-- Visiting cells of a phase without a journal comes to an end. -/
theorem run_ne_outOfFuel {cx : Context} (hcx : base.Within cx) {fuel : Nat}
    (hfuel : base.report.evaluationDepth ≤ fuel) {targets : List Resolved}
    (htargets : ∀ t ∈ targets, t ∈ base.report.targets cx.phase) :
    cx.phase.run (access (evaluate fuel)) cx targets ≠ .error .outOfFuel := by
  have related : sufficient.Rel (cx.phase.run (access (evaluate fuel)) cx targets)
      (cx.phase.run (access (evaluate fuel)) cx targets) := by
    refine Correspondence.forM _ fun target htarget => ?_
    obtain ⟨hmem, rule, hrule⟩ := Report.mem_targets_iff.1 (htargets target htarget)
    refine Correspondence.visit _ hrule ?_
    refine reads_of_outcome sufficient_recordsLocal.admits fun rule hrule => ?_
    rw [hcx.own_eq]
    exact outcome_ne_outOfFuel hwf hacyclic hindex ((Report.mem_cells_iff hwf).1 hmem) hrule hfuel
  exact related

end Plain

namespace ProtocolChain

section Builtin
variable {chain : ProtocolChain σ} (hchain : chain.IsBuiltin) {report : Report}
  (hwf : report.WellFormed) (hacyclic : report.Acyclic) {index : ReportIndex}
  (hindex : index = .build report)
include hchain hwf hacyclic hindex

/-- A phase ends as visiting its cells without a journal does. -/
theorem run_phaseTask_eq {phase : Phase} {w start : World σ}
    (h : Phase.Begins (chain.phaseTask index time report) (cleared report time w) phase start) :
    ((chain.phaseTask index time report phase).run start).1 =
      phase.run (Plain.access (Plain.evaluate report.evaluationDepth))
        (chain.context report index time phase) (report.targets phase) := by
  have hsim := simulation_phaseTask hchain hwf hacyclic hindex phase report.evaluationDepth start
    (follows_of_begins hchain hwf hacyclic hindex h)
  have hcx : (chain.context report index time .execution).Within
    (chain.context report index time phase) := rfl
  rcases hsim.result with hout | hresult | ⟨hshort, -⟩
  · refine absurd hout (Plain.run_ne_outOfFuel hwf hacyclic hindex hcx (Nat.le_refl _) ?_)
    exact fun _ ht => ht
  · exact hresult
  · exact absurd hshort (Nat.lt_irrefl _)

/-- On an acyclic report a pass of built-in protocols comes to an end. -/
theorem run_passTask_ne_outOfFuel (w : World σ) :
    ((chain.passTask index time report).run w).1 ≠ .error .outOfFuel := by
  intro h
  rw [run_passTask] at h
  obtain ⟨phase, start, hbegins, hrun⟩ := Phase.exists_begins_of_run_error (Prod.ext h rfl)
  have hrun := congrArg Prod.fst hrun
  rw [run_phaseTask_eq hchain hwf hacyclic hindex hbegins] at hrun
  have hcx : (chain.context report index time .execution).Within
    (chain.context report index time phase) := rfl
  exact Plain.run_ne_outOfFuel hwf hacyclic hindex hcx (Nat.le_refl _) (fun _ ht => ht) hrun

end Builtin

end ProtocolChain

theorem Agent.recalcPass_ne_outOfFuel {agent : Agent} {options : RecalcOptions σ} {host : σ}
    (hsources : options.sources = []) (hwf : agent.WellFormed) (hacyclic : agent.report.Acyclic)
    {s : Round σ} (hrun : Round.Reaches (agent.recalcPass options time) agent.config time
      (agent.firstRound host) s) :
    (agent.recalcPass options time s.report s.world).1 ≠ .error .outOfFuel := by
  obtain ⟨hwf', hacyclic', hbuild⟩ := Round.report_of_reaches hwf.report hacyclic hrun
  rw [recalcPass, ProtocolChain.pass_eq hsources]
  exact ProtocolChain.run_passTask_ne_outOfFuel (ProtocolChain.isBuiltin_protocolChain hsources)
    hwf' hacyclic' (hwf.index.trans hbuild.symm) s.world

/-! ## Inputs that can be cleared -/

/-- Whether the cell is an input that holds a value and can be disabled. -/
def Cell.isClearable (cell : Cell) : Bool := cell.availability?.isSome && cell.holdsInput

/-- The number of inputs that hold a value and can be disabled. -/
def Report.clearableInputs (r : Report) : Nat := r.cells.countP fun (_, cell) => cell.isClearable

theorem Report.length_le_countP {r : Report} (h : r.WellFormed) {p : Cell → Bool}
    {addresses : List CellAddress} (hnodup : addresses.Nodup)
    (hp : ∀ a ∈ addresses, ∃ cell, r.cellAt? a = some cell ∧ p cell = true) :
    addresses.length ≤ r.cells.countP fun (_, cell) => p cell := by
  have hsub : addresses ⊆ (r.cells.filter fun (_, cell) => p cell).map Prod.fst := by
    intro a ha
    obtain ⟨cell, hcell, hp⟩ := hp a ha
    exact List.mem_map.2 ⟨(a, cell), List.mem_filter.2 ⟨(mem_cells_iff h).2 hcell, hp⟩, rfl⟩
  rw [List.countP_eq_length_filter]
  simpa using (List.Nodup.subperm hnodup hsub).length_le

/-- Only a cell with a chain can be disabled. -/
theorem Journal.isSome_availability?_of_disabled {j : Journal} {a : CellAddress} {cell : Cell}
    (h : j.availabilityState a cell = .disabled) : cell.availability?.isSome = true := by
  unfold availabilityState at h
  split at h
  · cases h
  · next hsome => exact Option.isSome_iff_ne_none.2 (by simpa using hsome)

namespace Round

variable {start s t u : Round σ}

/-- Whatever is cleared could be cleared from the start. -/
theorem ClearedInputs.length_le (hstart : start.report.WellFormed) {report : Report}
    {cleared : List CellAddress} (h : ClearedInputs pass config time start report cleared) :
    cleared.length ≤ start.report.clearableInputs := by
  refine Report.length_le_countP hstart h.nodup fun a ha => ?_
  obtain ⟨c, v, hc, hv, hnull⟩ := h.held a ha
  obtain ⟨s, w, hrun, -, -, cell, hcell, hdisabled⟩ := h.found a ha
  obtain ⟨before, hbefore, -⟩ := exists_clearedInputs hstart hrun
  rw [hbefore.report_eq, Report.cellAt?_update hstart, hc, Option.map_some] at hcell
  have hchain := Journal.isSome_availability?_of_disabled hdisabled
  rw [← Option.some.inj hcell, Cell.availability?_update] at hchain
  exact ⟨_, hc, by simp [Cell.isClearable, Cell.holdsInput, Cell.input?, hchain, hv, hnull]⟩

/-- One more round clears just what the pass before it has found disabled. -/
theorem Reruns.clearedInputs (h : s.report.WellFormed) (hst : Reruns pass config time s t) :
    ClearedInputs pass config time s t.report (s.disabledInputs pass) := by
  rcases hst with @⟨w, hpass, hfurther, -⟩
  rw [disabledInputs_eq hpass]
  exact (ClearedInputs.refl s).next h .refl hpass (Findings.isFinal_eq_false_iff.1 hfurther).1

/-- An input that is cleared holds no value for the rest of the run, so no later pass finds it. -/
theorem disjoint_disabledInputs (h : s.report.WellFormed) (hst : Reruns pass config time s t)
    (htu : Reaches pass config time t u) :
    (s.disabledInputs pass).Disjoint (u.disabledInputs pass) := by
  obtain ⟨rounds, hrun⟩ := exists_run htu
  obtain ⟨hmore, -⟩ := (hst.clearedInputs h).extend h (.single hst) hrun
  intro a hs hu
  exact (hmore.input_of_mem_disabledInputs h hu).1 (List.mem_append_left _ hs)

/-- Every further round follows the clearing of at least one input. -/
theorem passes_le (hstart : start.report.WellFormed)
    (hrun : Reaches pass config time start s) :
    s.summary.passes + start.summary.clearedInputs.length ≤
      start.summary.passes + s.summary.clearedInputs.length := by
  induction hrun with
  | refl => exact Nat.le_refl _
  | @tail s t hrun hstep ih =>
    obtain ⟨cleared, hcleared, -⟩ := exists_clearedInputs hstart hrun
    have wellFormed : s.report.WellFormed := hcleared.report_eq ▸ hstart.update
    rcases hstep with @⟨w, -, hmore, -⟩
    have some : 0 < (w.journal.findings s.report).disabledInputs.length :=
      List.length_pos_iff.2 (Findings.isFinal_eq_false_iff.1 hmore).2
    rw [(report_next wellFormed w).2, List.length_append, List.length_map]
    simp only [next]
    omega

end Round

/-! ## The loop -/

/-- A recalculation without a limit on its passes ends as soon as its passes do, with a summary or
with the error of its last pass. Every further round leaves fewer inputs that hold a value, no input
is found disabled with a value in two rounds, and one more pass than there are inputs that hold a
value and can be disabled is enough; each pass but the last has cleared an input. -/
theorem Agent.recalc_terminates {agent : Agent} {options : RecalcOptions σ} {host : σ}
    (h : agent.report.WellFormed) (hutc : time.isUtc = true)
    (hlimit : agent.config.maxPasses = none)
    (hpasses : ∀ s, Round.Reaches (agent.recalcPass options time) agent.config time
        (agent.firstRound host) s →
      (agent.recalcPass options time s.report s.world).1 ≠ .error .outOfFuel) :
    (∃ last e, Round.Reaches (agent.recalcPass options time) agent.config time
          (agent.firstRound host) last ∧
        last.Ends (agent.recalcPass options time) agent.config e ∧
        agent.recalc options time host = (e.result,
          { agent with report := e.report, journal := e.world.journal }, e.world.host) ∧
        ((∃ failed, e.result = .ok ⟨last.summary.passes + 1, last.summary.clearedInputs, failed⟩) ∨
          ∃ error, e.result = .error (.error error) ∧
            (agent.recalcPass options time last.report last.world).1 = .error (.error error))) ∧
      ∀ s, Round.Reaches (agent.recalcPass options time) agent.config time
          (agent.firstRound host) s →
        s.summary.passes + 1 ≤ agent.report.clearableInputs + 1 ∧
        s.summary.passes ≤ s.summary.clearedInputs.length ∧
        (s.disabledInputs (agent.recalcPass options time)).Nodup ∧
        ∀ t, Round.Reruns (agent.recalcPass options time) agent.config time s t →
          t.report.heldInputs < s.report.heldInputs ∧
          ∀ u, Round.Reaches (agent.recalcPass options time) agent.config time t u →
            (s.disabledInputs (agent.recalcPass options time)).Disjoint
              (u.disabledInputs (agent.recalcPass options time)) := by
  constructor
  · obtain ⟨last, e, hrun, hend, heq⟩ := recalcBy_ends h hutc (agent.recalcPass options time) host
    refine ⟨last, e, hrun, hend, heq, ?_⟩
    cases hend with
    | @interrupted i w hpass =>
      cases i with
      | error error => exact .inr ⟨error, rfl, congrArg Prod.fst hpass⟩
      | outOfFuel => exact absurd (congrArg Prod.fst hpass) (hpasses last hrun)
    | finished hpass hfinal => exact .inl ⟨_, rfl⟩
    | limited hpass hmore hreached =>
      rw [Round.limit?, hlimit] at hreached
      cases hreached
  · intro s hrun
    obtain ⟨cleared, hcleared, hlabels⟩ := Round.exists_clearedInputs h hrun
    have wellFormed : s.report.WellFormed := hcleared.report_eq ▸ h.update
    have hpasses : s.summary.passes ≤ s.summary.clearedInputs.length := by
      simpa [firstRound] using Round.passes_le h hrun
    have hlength : s.summary.clearedInputs.length = cleared.length := by
      simp [hlabels, firstRound]
    have hclearable := hcleared.length_le h
    refine ⟨?_, hpasses, Journal.nodup_disabledInputs wellFormed, fun t hst => ?_⟩
    · change s.summary.passes + 1 ≤ (agent.firstRound host).report.clearableInputs + 1
      omega
    · exact ⟨Round.heldInputs_lt_of_reruns wellFormed hst, fun u =>
        Round.disjoint_disabledInputs wellFormed hst⟩

/-- The input that is always disabled is cleared once, and so there are two passes. -/
theorem Agent.recalc_terminates_disabledInput :
    DisabledInput.report.clearableInputs = 1 ∧
      (∀ s, Round.Reaches ((ofReport DisabledInput.report .default).recalcPass .none ⟨0, 0⟩)
          .default ⟨0, 0⟩ ((ofReport DisabledInput.report .default).firstRound ()) s →
        s.summary.passes + 1 ≤ 2) ∧
      ((ofReport DisabledInput.report .default).recalc .none ⟨0, 0⟩ ()).1 =
        .ok ⟨2, ["discount"], []⟩ := by
  have hwf : (ofReport DisabledInput.report .default).WellFormed :=
    .ofReport DisabledInput.wellFormed .default
  obtain ⟨-, hrounds⟩ := @recalc_terminates Unit ⟨0, 0⟩ _ .none () hwf.report rfl rfl
    fun s hrun => recalcPass_ne_outOfFuel rfl hwf DisabledInput.acyclic hrun
  exact ⟨rfl, fun s hrun => (hrounds s hrun).1, rfl⟩

end ReportCalc
