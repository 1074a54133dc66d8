import ReportCalc.Proofs.Agent.Calls
import ReportCalc.Proofs.Agent.Mirroring

/-!
# Recalculations without memory

What a recalculation does depends on the settings, on the report and on what its inputs hold, and on
nothing else: neither on what was recorded before nor on the history of inputs
(`Agent.recalc_forgets`). So a recalculation that succeeds can be repeated at any later time, with
one pass that finds the same again (`Agent.recalc_idempotent`). Both follow from passes that mirror
each other, the first by going through the rounds of both runs side by side
(`Agent.recalc_resembles`).
-/

namespace ReportCalc

variable {σ : Type} {u : InputUpdate} {index : ReportIndex} {pass pass' : Pass σ} {config : Config}
  {time time' : DateTime}

/-! ## Agents -/

namespace Agent

variable {agent agent' : Agent} {options : RecalcOptions σ} {host host' : σ}
  {result : Except Interrupt RecalcSummary}

theorem WellFormed.recalc (h : agent.WellFormed)
    (hrecalc : agent.recalc options time host = (result, agent', host')) : agent'.WellFormed := by
  have kept := h.recalcBy ((protocolChain agent.config options).pass agent.index time) time host
  rwa [show agent.recalcBy _ time host = _ from hrecalc] at kept

end Agent

/-! ## Passes -/

/-- From reports with this index that resemble each other, the passes have the same result and leave
journals behind that mirror each other, whatever the worlds are in which they start. -/
def Pass.Mirrors (pass : Pass σ) (u : InputUpdate) (index : ReportIndex) (pass' : Pass σ)
    (time time' : DateTime) : Prop :=
  ∀ (r r' : Report) (w w' : World σ), r.Resembles u r' → index = .build r →
    ∃ result v v', pass r w = (result, v) ∧ pass' r' w' = (result, v') ∧
      Journal.Mirrors r time time' v.journal v'.journal

theorem ProtocolChain.pass_mirrors {options : RecalcOptions σ} (h : options.sources = [])
    (config : Config) (u : InputUpdate) (index : ReportIndex) (time time' : DateTime) :
    ((Agent.protocolChain config options).pass index time).Mirrors u index
      ((Agent.protocolChain config options).pass index time') time time' := by
  intro r r' w w' hreport hindex
  rw [pass_eq h, pass_eq h, hindex]
  exact passTask_mirrors (isBuiltin_protocolChain h) hreport time time' w w'

/-- Such passes find the same. -/
theorem Journal.Mirrors.findings_eq_of_resembles {r r' : Report} {j k : Journal}
    (h : Mirrors r time time' j k) (hreport : r.Resembles u r') :
    j.findings r = k.findings r' := by
  have unnoticed := hreport.unnoticed.held
  calc j.findings r
    _ = k.findings r := h.findings_eq hreport.wellFormed
    _ = k.findings (r.update u) := (findings_update unnoticed).symm
    _ = k.findings (r'.update u) := by rw [hreport.update_eq]
    _ = k.findings r' := findings_update unnoticed

/-! ## Rounds -/

namespace Round

/-- Rounds that have come equally far, over reports that resemble each other and have this index. -/
structure Twins (u : InputUpdate) (index : ReportIndex) (s s' : Round σ) : Prop where
  report : s.report.Resembles u s'.report
  indexed : index = .build s.report
  summary : s.summary = s'.summary

namespace Twins

variable {s s' t start start' : Round σ}

/-- Rounds that have found the same clear the same inputs. -/
theorem next (h : Twins u index s s') (hu : u.Blurs) {w w' : World σ}
    (hfindings : w.journal.findings s.report = w'.journal.findings s'.report) :
    Twins u index (s.next time w) (s'.next time w') := by
  obtain ⟨hreport, hlabels⟩ := @report_next σ time s h.report.wellFormed w
  obtain ⟨hreport', hlabels'⟩ := @report_next σ time s' h.report.wellFormed' w'
  constructor
  · rw [hreport, hreport', ← hfindings]
    exact h.report.clearing hu time _
  · rw [hreport, ReportIndex.build_update]
    exact h.indexed
  · have passes : (s.next time w).summary.passes = (s'.next time w').summary.passes :=
      congrArg (·.passes + 1) h.summary
    have cleared :
        (s.next time w).summary.clearedInputs = (s'.next time w').summary.clearedInputs := by
      rw [hlabels, hlabels', hfindings, h.report.labelAt_eq, h.summary]
    have failed : (s.next time w).summary.failedCells = (s'.next time w').summary.failedCells :=
      congrArg Findings.failedCells hfindings
    exact (RecalcSummary.mk.injEq ..).mpr ⟨passes, cleared, failed⟩

/-- Twin rounds end in the same way. -/
theorem ends (hpass : pass.Mirrors u index pass' time time') (h : Twins u index s s')
    {e : RecalcEnd σ} (hend : s.Ends pass config e) :
    ∃ e', s'.Ends pass' config e' ∧ e'.result = e.result ∧
      Journal.Mirrors s.report time time' e.world.journal e'.world.journal := by
  obtain ⟨result, v, v', hv, hrun', hmirrors⟩ := hpass _ _ s.world s'.world h.report h.indexed
  have findings := hmirrors.findings_eq_of_resembles h.report
  cases hend with
  | interrupted hrun =>
    cases hrun.symm.trans hv
    exact ⟨_, .interrupted hrun', rfl, hmirrors⟩
  | finished hrun hfinal =>
    cases hrun.symm.trans hv
    refine ⟨_, .finished hrun' (findings ▸ hfinal), ?_, hmirrors⟩
    rw [h.summary, findings]
  | limited hrun hmore hlimit =>
    cases hrun.symm.trans hv
    refine ⟨_, .limited hrun' (findings ▸ hmore) ?_, rfl, hmirrors⟩
    rwa [limit?, ← h.summary]

/-- Twin rounds go through the same passes side by side, and clear the same inputs on the way. The
induction is on the first of the two runs. -/
theorem reaches (hu : u.Blurs) (hpass : pass.Mirrors u index pass' time time)
    (h : Twins u index start start') (hrun : Reaches pass config time start s) :
    ∃ s' cleared, Reaches pass' config time start' s' ∧ Twins u index s s' ∧
      ClearedInputs pass config time start s.report cleared ∧
      ClearedInputs pass' config time start' s'.report cleared := by
  induction hrun with
  | refl => exact ⟨start', [], .refl, h, .refl start, .refl start'⟩
  | @tail s t hrun hst ih =>
    obtain ⟨s', cleared, hrun', htwins, hcleared, hcleared'⟩ := ih
    rcases hst with @⟨w, hw, hmore, hlimit⟩
    obtain ⟨result, v, w', hv, hw', hmirrors⟩ :=
      hpass _ _ s.world s'.world htwins.report htwins.indexed
    cases hw.symm.trans hv
    have findings := hmirrors.findings_eq_of_resembles htwins.report
    have hmore' : (w'.journal.findings s'.report).isFinal = false := findings ▸ hmore
    have hlimit' : s'.limit? config = none := by rwa [limit?, ← htwins.summary]
    have hnext := hcleared.next h.report.wellFormed hrun hw
      (Findings.isFinal_eq_false_iff.1 hmore).1
    have hnext' := hcleared'.next h.report.wellFormed' hrun' hw'
      (Findings.isFinal_eq_false_iff.1 hmore').1
    rw [← findings] at hnext'
    exact ⟨_, _, hrun'.tail (.intro hw' hmore' hlimit'), htwins.next hu findings, hnext, hnext'⟩

end Twins

end Round

/-! ## Recalculations -/

namespace Agent

variable {agent agent' left left' : Agent} {options : RecalcOptions σ} {host host' : σ}
  {out out' : σ} {result result' : Except Interrupt RecalcSummary}

/-- Agents with equal settings, of which the reports resemble each other, are recalculated with the
same result. The same inputs are cleared in both, so the reports still resemble each other, and all
executions, validations and availability checks that are recorded are the same. -/
theorem recalc_resembles (hu : u.Blurs) (hsources : options.sources = [])
    (hwf : agent.WellFormed) (hwf' : agent'.WellFormed) (hconfig : agent.config = agent'.config)
    (hreport : agent.report.Resembles u agent'.report) (hutc : time.isUtc = true)
    (hrecalc : agent.recalc options time host = (result, left, out))
    (hrecalc' : agent'.recalc options time host' = (result', left', out')) :
    result = result' ∧ left.report.Resembles u left'.report ∧
      (∃ cleared,
        Round.ClearedInputs ((protocolChain agent.config options).pass agent.index time)
          agent.config time (agent.firstRound host) left.report cleared ∧
        Round.ClearedInputs ((protocolChain agent'.config options).pass agent'.index time)
          agent'.config time (agent'.firstRound host') left'.report cleared) ∧
      ∀ a cell phase, left.report.cellAt? a = some cell → cell.hasLog phase = true →
        left.journal.logOf phase a = left'.journal.logOf phase a := by
  have index : agent'.index = agent.index := by rw [hwf.index, hwf'.index, hreport.index_eq]
  have hpass := ProtocolChain.pass_mirrors hsources agent.config u agent.index time time
  have twins : Round.Twins u agent.index (agent.firstRound host) (agent'.firstRound host') :=
    ⟨hreport, hwf.index, rfl⟩
  obtain ⟨s, e, hrun, hend, heq⟩ := recalcBy_ends hwf.report hutc
    ((protocolChain agent.config options).pass agent.index time) host
  cases heq.symm.trans hrecalc
  obtain ⟨s', cleared, hrun', htwins, hcleared, hcleared'⟩ := twins.reaches hu hpass hrun
  obtain ⟨e', hend', hresult, hmirrors⟩ := htwins.ends hpass hend
  obtain ⟨_, -, hleft, -⟩ := hend.exists_pass
  obtain ⟨_, -, hleft', -⟩ := hend'.exists_pass
  unfold Agent.recalc at hrecalc'
  rw [hconfig, ← index] at hrun' hend' hcleared'
  cases (recalcBy_eq hwf'.report hutc hrun' hend').symm.trans hrecalc'
  simp only [hleft, hleft']
  refine ⟨hresult.symm, htwins.report, ⟨cleared, hcleared, hcleared'⟩, ?_⟩
  intro a cell phase hcell hlog
  exact hmirrors.logOf_eq hcell hlog

/-- A recalculation does not depend on what earlier ones have left behind. Two agents with equal
settings, of which the reports are equal without the history of inputs, are recalculated with the
same result, even if it is an error. The same inputs are cleared in both, so their values are equal
again, and all executions, validations and availability checks that are recorded are the same. -/
theorem recalc_forgets (hsources : options.sources = []) (hwf : agent.WellFormed)
    (hwf' : agent'.WellFormed) (hconfig : agent.config = agent'.config)
    (hreport : agent.report.withoutHistory = agent'.report.withoutHistory)
    (hutc : time.isUtc = true)
    (hrecalc : agent.recalc options time host = (result, left, out))
    (hrecalc' : agent'.recalc options time host' = (result', left', out')) :
    result = result' ∧
      (∃ cleared, left.report = agent.report.update (.clearing time cleared) ∧
        left'.report = agent'.report.update (.clearing time cleared)) ∧
      left.report.withoutHistory = left'.report.withoutHistory ∧
      ∀ a cell phase, left.report.cellAt? a = some cell → cell.hasLog phase = true →
        left.journal.logOf phase a = left'.journal.logOf phase a := by
  have resembles : agent.report.Resembles .forgetting agent'.report :=
    ⟨hwf.report, hwf'.report, hreport, InputUpdate.unnoticed_forgetting _⟩
  obtain ⟨hresult, hleft, ⟨cleared, hcleared, hcleared'⟩, hlogs⟩ := recalc_resembles
    InputUpdate.blurs_forgetting hsources hwf hwf' hconfig resembles hutc hrecalc hrecalc'
  exact ⟨hresult, ⟨cleared, hcleared.report_eq, hcleared'.report_eq⟩, hleft.update_eq, hlogs⟩

/-- The disabled input is set again after a recalculation, and the next one ends like the first. -/
theorem recalc_forgets_disabledInput :
    ∃ agent agent', (ofReport DisabledInput.report .default).recalc .none ⟨0, 0⟩ () =
        (.ok ⟨2, ["discount"], []⟩, agent, ()) ∧
      agent.setInput (.standard "section" "discount" .none) (some (.int 5)) ⟨0, 0⟩ = .ok agent' ∧
        (agent'.recalc .none ⟨0, 0⟩ ()).1 = .ok ⟨2, ["discount"], []⟩ := by
  have hwf : (ofReport DisabledInput.report .default).WellFormed :=
    .ofReport DisabledInput.wellFormed .default
  obtain ⟨agent', hset⟩ : ∃ agent', ((ofReport DisabledInput.report .default).recalc .none ⟨0, 0⟩
      ()).2.1.setInput (.standard "section" "discount" .none) (some (.int 5)) ⟨0, 0⟩ =
        .ok agent' := ⟨_, rfl⟩
  have hwf' := (hwf.recalc DisabledInput.recalc_report).setInput hset
  refine ⟨_, agent', DisabledInput.recalc_report, hset, ?_⟩
  have hreport : agent'.report.withoutHistory = DisabledInput.report.withoutHistory := by
    cases hset
    rfl
  have hconfig : agent'.config = .default := by
    cases hset
    rfl
  have hforgets := @recalc_forgets Unit ⟨0, 0⟩ (ofReport DisabledInput.report .default) agent' _ _
    .none () () _ _ _ _ rfl hwf hwf' hconfig.symm hreport.symm rfl
    DisabledInput.recalc_report rfl
  exact hforgets.1.symm

/-- A recalculation that succeeds may be repeated as of any time. One pass is enough then, it fails
at the same cells and clears nothing, and the logs of all cells hold the same contents as before,
recorded at the new time. -/
theorem recalc_idempotent {summary : RecalcSummary} (hsources : options.sources = [])
    (hwf : agent.WellFormed) (hutc : time'.isUtc = true)
    (hrecalc : agent.recalc options time host = (.ok summary, left, out)) (host' : σ) :
    ∃ journal out', left.recalc options time' host' =
        (.ok ⟨1, [], summary.failedCells⟩, { left with journal }, out') ∧
      Journal.Mirrors left.report time time' left.journal journal := by
  have hleft := hwf.recalc hrecalc
  unfold Agent.recalc at hrecalc
  cases hutc₁ : time.isUtc with
  | false =>
    rw [recalcBy_of_not_utc hutc₁] at hrecalc
    cases hrecalc
  | true =>
    obtain ⟨s, e, hrun, hend, heq⟩ := recalcBy_ends hwf.report hutc₁ _ host
    have hends := heq.symm.trans hrecalc
    cases hend with
    | interrupted => cases hends
    | limited => cases hends
    | @finished w hpass hfinal =>
      cases hends
      have hagain :=
        ProtocolChain.pass_mirrors hsources agent.config .forgetting agent.index time time'
      have same : s.report.Resembles .forgetting s.report :=
        ⟨hleft.report, hleft.report, rfl, InputUpdate.unnoticed_forgetting _⟩
      obtain ⟨result, v, v', hv, hpass', hmirrors⟩ :=
        hagain s.report s.report s.world ⟨w.journal, host'⟩ same hleft.index
      cases hpass.symm.trans hv
      have findings := hmirrors.findings_eq hleft.report
      have hend' : ((⟨s.report, agent.index, agent.config, w.journal⟩ : Agent).firstRound
        host').Ends _ agent.config _ := .finished hpass' (findings ▸ hfinal)
      have heq' := recalcBy_eq hleft.report hutc .refl hend'
      refine ⟨v'.journal, v'.host, ?_, hmirrors⟩
      refine heq'.trans ?_
      rw [findings]
      rfl

/-- After the second pass over the report with the disabled input, another recalculation takes one
pass. -/
theorem recalc_idempotent_disabledInput :
    ∃ agent journal, (ofReport DisabledInput.report .default).recalc .none ⟨0, 0⟩ () =
        (.ok ⟨2, ["discount"], []⟩, agent, ()) ∧
      agent.recalc .none ⟨60, 0⟩ () = (.ok ⟨1, [], []⟩, { agent with journal }, ()) ∧
      Journal.Mirrors agent.report ⟨0, 0⟩ ⟨60, 0⟩ agent.journal journal := by
  obtain ⟨journal, out, hagain, hmirrors⟩ := @recalc_idempotent Unit ⟨0, 0⟩ ⟨60, 0⟩ _ _ .none _ _ _
    rfl (.ofReport DisabledInput.wellFormed .default) rfl DisabledInput.recalc_report ()
  exact ⟨_, journal, DisabledInput.recalc_report, hagain, hmirrors⟩

end Agent

end ReportCalc
