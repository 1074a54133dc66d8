import ReportCalc.Proofs.Agent.Termination
import ReportCalc.Proofs.Evaluation.Soundness

/-!
# Recalculations of well-typed reports

With built-in protocols, a recalculation of a well-typed report meets no mistake in kinds
(`Agent.recalc_wellTyped`). Wherever it may be suspended, and however it ends, what it has recorded
are values of the kinds of the operations, verdicts, and ordinary errors. It fails itself only for
reasons that have nothing to do with kinds.
-/

namespace ReportCalc

variable {σ : Type} {time : DateTime}

/-! ## Protocols -/

theorem Agent.mem_supportedKinds {config : Config} {options : RecalcOptions σ} {kind : Kind}
    (h : kind ∈ Kind.standard) : kind ∈ supportedKinds config options := by
  refine List.foldlRecOn (motive := (kind ∈ ·)) _ _ h fun kinds hkinds _ _ => ?_
  split
  · exact hkinds
  · exact List.mem_append_left _ hkinds

/-- The protocols of a recalculation include all that typed operations need. -/
theorem ProtocolChain.knowsTyped_context {config : Config} {options : RecalcOptions σ}
    {report : Report} {index : ReportIndex} {phase : Phase} :
    ((Agent.protocolChain config options).context report index time phase).KnowsTyped := by
  intro op resolve hkind htyped
  obtain ⟨entry, hentry, htag⟩ := htyped.exists_mem_builtinProtocols
  exact knows_withBuiltins (Agent.mem_supportedKinds hkind) hentry htag

/-! ## What is recorded -/

/-- Every outcome in the logs of a pass tells of the evaluation of its cell that it has given a
value of the right kind, or a verdict, or an ordinary error. -/
def Context.RecordsTyped (base : Context) (j : Journal) : Prop :=
  ∀ a cell phase, base.report.cellAt? a = some cell → cell.hasLog phase = true →
    ∀ event ∈ (j.logOf phase a).events, PassContent.isCleared event.content = true ∨
      ∃ rule, cell.rule? phase = some rule ∧ ∀ fuel, base.report.evaluationDepth ≤ fuel →
        phase.Typed (Plain.evaluate fuel (base.own ⟨a, cell⟩ phase)) rule event.content

section Passes
variable {base : Context} (hwf : base.report.WellFormed) (htyped : base.report.WellTyped)
  (hindex : base.index = .build base.report) (hknows : base.KnowsTyped)
include hwf htyped hindex hknows

/-- What a pass records is what the plain evaluation gives, which makes no mistake in kinds. -/
theorem Context.Follows.recordsTyped {done : Nat} {j : Journal} (h : base.Follows done j) :
    base.RecordsTyped j := by
  intro a cell phase hcell hlog event hevent
  have marker (heq : event = PassContent.marker passReason base.time) :
      PassContent.isCleared event.content = true := by
    rw [heq]
    exact PassContent.isCleared_cleared _
  cases hrule : cell.rule? phase with
  | none =>
    rw [h.fresh hcell hlog hrule] at hevent
    exact .inl (marker (List.mem_singleton.1 hevent))
  | some rule =>
    rcases h.recorded hcell hrule with ⟨outcome, hsettled, hplain⟩ | ⟨-, hfresh⟩
    · rw [hsettled.events, List.mem_pair] at hevent
      rcases hevent with hevent | rfl
      · exact .inl (marker hevent)
      · refine .inr ⟨rule, rfl, fun fuel hfuel => ?_⟩
        have hends : Plain.outcome base ⟨a, cell⟩ phase rule fuel ≠ .error .outOfFuel :=
          Plain.outcome_ne_outOfFuel hwf htyped.acyclic hindex hcell hrule hfuel
        exact (Plain.outcome_sound htyped hindex hknows hcell hrule fuel).value_of_eq
          ((hplain fuel).resolve_left hends)
    · rw [hfresh] at hevent
      exact .inl (marker (List.mem_singleton.1 hevent))

/-- Visiting the cells of a phase fails only at an operation that is not allowed in it. -/
theorem Plain.run_yields {cx : Context} (hcx : base.Within cx) (fuel : Nat) :
    Yields Interrupt.IsWrongPhase (fun _ => True)
      (cx.phase.run (access (evaluate fuel)) cx (base.report.targets cx.phase)) := by
  refine .forM fun target htarget => ?_
  obtain ⟨hmem, rule, hrule⟩ := Report.mem_targets_iff.1 htarget
  refine visit_yields hrule ?_
  rw [hcx.own_eq]
  exact (outcome_sound htyped hindex hknows ((Report.mem_cells_iff hwf).1 hmem) hrule fuel).mono
    (fun _ hi => hi) fun _ _ => trivial

end Passes

section Passes
variable {config : Config} {options : RecalcOptions σ} (hsources : options.sources = [])
  {report : Report} (hwf : report.WellFormed) (htyped : report.WellTyped) {index : ReportIndex}
  (hindex : index = .build report) {w w' : World σ}
include hsources hwf htyped hindex

/-- Wherever a pass may be suspended once it has cleared the logs, they are free of mistakes in
kinds. -/
theorem ProtocolChain.recordsTyped_of_mem_tail
    (h : w' ∈ (((Agent.protocolChain config options).passTask index time report).trace w).tail) :
    ((Agent.protocolChain config options).context report index time .execution).RecordsTyped
      w'.journal := by
  obtain ⟨_, _, -, -, hfollows, -⟩ := exists_begins_of_mem_tail
    (isBuiltin_protocolChain hsources) hwf htyped.acyclic hindex h
  exact hfollows.recordsTyped hwf htyped hindex knowsTyped_context

/-- A pass over a well-typed report fails only at an operation that is not allowed in its phase. -/
theorem ProtocolChain.wrongPhase_of_run_passTask {i : Interrupt}
    (h : (((Agent.protocolChain config options).passTask index time report).run w).1 = .error i) :
    ∃ tag phase required, i = .error (.wrongPhase tag phase required) := by
  have hchain : (Agent.protocolChain config options).IsBuiltin := isBuiltin_protocolChain hsources
  rw [run_passTask] at h
  obtain ⟨phase, start, hbegins, hrun⟩ := Phase.exists_begins_of_run_error (Prod.ext h rfl)
  have hrun := congrArg Prod.fst hrun
  rw [run_phaseTask_eq hchain hwf htyped.acyclic hindex hbegins] at hrun
  have hcx : ((Agent.protocolChain config options).context report index time .execution).Within
    ((Agent.protocolChain config options).context report index time phase) := rfl
  have hwrong := (Plain.run_yields hwf htyped hindex knowsTyped_context hcx _).error_of_eq hrun
  cases i with
  | error e =>
    obtain ⟨tag, phase, required, rfl⟩ := hwrong
    exact ⟨tag, phase, required, rfl⟩
  | outOfFuel =>
    exact absurd hrun
      (Plain.run_ne_outOfFuel hwf htyped.acyclic hindex hcx (Nat.le_refl _) fun _ ht => ht)

end Passes

namespace DisabledInput

/-- The input holds an integer, its chain asks for a truth value, and the other cell reads it as an
integer. -/
theorem wellTyped : report.WellTyped where
  acyclic := acyclic
  inputs a c hc := by
    have hmem : (a, Cell.input c) ∈ report.cells := (Report.mem_cells_iff wellFormed).2 hc
    simp only [cells_report, List.mem_cons, Prod.mk.injEq, List.not_mem_nil, or_false] at hmem
    rcases hmem with ⟨-, hc⟩ | ⟨-, hc⟩ <;> cases hc
    rfl
  operations a cell phase op hcell hop := by
    have hmem : (a, cell) ∈ report.cells := (Report.mem_cells_iff wellFormed).2 hcell
    simp only [cells_report, List.mem_cons, Prod.mk.injEq, List.not_mem_nil, or_false] at hmem
    rcases hmem with ⟨rfl, rfl⟩ | ⟨rfl, rfl⟩ <;> cases phase <;> cases hop
    · refine Operation.wellTyped_iff.2 ⟨by decide, fun step hstep => ?_, fun x hx => ?_⟩
      · cases List.mem_singleton.1 hstep
        rfl
      · cases List.mem_singleton.1 hx
        exact Operation.wellTyped_iff.2 ⟨by decide, rfl, nofun⟩
    · refine Operation.wellTyped_iff.2 ⟨by decide, fun target htarget => ?_, nofun⟩
      cases htarget
      exact .refl _

end DisabledInput

/-! ## Recalculations -/

/-- The rounds of a recalculation keep the report well-typed. -/
theorem Round.wellTyped_of_reaches {pass : Pass σ} {config : Config} {start s : Round σ}
    (hwf : start.report.WellFormed) (htyped : start.report.WellTyped)
    (hrun : Reaches pass config time start s) : s.report.WellFormed ∧ s.report.WellTyped ∧
      ReportIndex.build s.report = .build start.report := by
  obtain ⟨cleared, hcleared, -⟩ := exists_clearedInputs hwf hrun
  rw [hcleared.report_eq]
  exact ⟨hwf.update, htyped.clearing hwf time cleared, ReportIndex.build_update⟩

namespace Agent

variable {agent agent' : Agent} {options : RecalcOptions σ} {host : σ}

/-- Recalculations of well-typed reports meet no mistake in kinds. Wherever a pass may be suspended
once it has cleared the logs, every outcome in them is that of an evaluation with a value of the
kind of the operation, with a verdict, or with an ordinary error. However the recalculation ends, so
it is with the logs and the report that it leaves behind. When it fails, then because of the time
that it was given, because of the limit on its passes, or because an operation is not allowed in the
phase in which it is evaluated. -/
theorem recalc_wellTyped (hsources : options.sources = []) (hwf : agent.WellFormed)
    (htyped : agent.report.WellTyped) :
    (∀ s, Round.Reaches (agent.recalcPass options time) agent.config time
        (agent.firstRound host) s →
      ∀ w ∈ (((protocolChain agent.config options).passTask agent.index time s.report).trace
          s.world).tail,
        ((protocolChain agent.config options).context s.report agent.index time
          .execution).RecordsTyped w.journal) ∧
      ∀ result agent' host', agent.recalc options time host = (result, agent', host') →
        agent'.report.WellTyped ∧
          (time.isUtc = true → ((protocolChain agent.config options).context agent'.report
            agent'.index time .execution).RecordsTyped agent'.journal) ∧
          ∀ i, result = .error i → i = .error (.nonUtcTimestamp time) ∨
            (∃ limit, i = .error (.rerunLimitExceeded limit)) ∨
              ∃ tag phase required, i = .error (.wrongPhase tag phase required) := by
  have rounds {s : Round σ} (hrun : Round.Reaches (agent.recalcPass options time) agent.config
      time (agent.firstRound host) s) : s.report.WellFormed ∧ s.report.WellTyped ∧
      agent.index = .build s.report := by
    obtain ⟨hwf', htyped', hbuild⟩ := Round.wellTyped_of_reaches hwf.report htyped hrun
    exact ⟨hwf', htyped', hwf.index.trans hbuild.symm⟩
  refine ⟨fun s hrun w hw => ?_, fun result agent' host' hrecalc => ?_⟩
  · obtain ⟨hwf', htyped', hindex⟩ := rounds hrun
    exact ProtocolChain.recordsTyped_of_mem_tail hsources hwf' htyped' hindex hw
  · unfold recalc at hrecalc
    cases hutc : time.isUtc with
    | false =>
      rw [recalcBy_of_not_utc hutc] at hrecalc
      cases hrecalc
      exact ⟨htyped, nofun, fun i hi => .inl (Except.error.inj hi).symm⟩
    | true =>
      obtain ⟨s, e, hrun, hend, heq⟩ := recalcBy_ends hwf.report hutc _ host
      cases heq.symm.trans hrecalc
      obtain ⟨hwf', htyped', hindex⟩ := rounds hrun
      obtain ⟨r, hpass, hreport, -⟩ := hend.exists_pass
      simp only [ProtocolChain.pass_eq hsources] at hpass
      have hlast := ProtocolChain.run_mem_tail_trace (protocolChain agent.config options)
        agent.index time s.report s.world
      rw [hpass] at hlast
      rw [hreport]
      refine ⟨htyped', fun _ => ProtocolChain.recordsTyped_of_mem_tail hsources hwf' htyped' hindex
        hlast, fun i hi => .inr ?_⟩
      cases hend with
      | interrupted hinterrupted =>
        cases hi
        rw [ProtocolChain.pass_eq hsources] at hinterrupted
        exact .inr (ProtocolChain.wrongPhase_of_run_passTask hsources hwf' htyped' hindex
          (congrArg Prod.fst hinterrupted))
      | finished => cases hi
      | limited =>
        cases hi
        exact .inl ⟨_, rfl⟩

/-- In the first pass over the report with a disabled input, and after the last one. -/
theorem recalc_wellTyped_disabledInput :
    (∀ w ∈ (((protocolChain .default .none).passTask (.build DisabledInput.report) ⟨0, 0⟩
        DisabledInput.report).trace (⟨.empty, ()⟩ : World Unit)).tail,
      ((protocolChain .default (.none : RecalcOptions Unit)).context DisabledInput.report
        (.build DisabledInput.report) ⟨0, 0⟩ .execution).RecordsTyped w.journal) ∧
      ∃ agent', (ofReport DisabledInput.report .default).recalc .none ⟨0, 0⟩ () =
          (.ok ⟨2, ["discount"], []⟩, agent', ()) ∧
        agent'.report.WellTyped ∧
          ((protocolChain .default (.none : RecalcOptions Unit)).context agent'.report agent'.index
            ⟨0, 0⟩ .execution).RecordsTyped agent'.journal := by
  obtain ⟨hpoints, hends⟩ := @recalc_wellTyped Unit ⟨0, 0⟩ (ofReport DisabledInput.report .default)
    .none () rfl (.ofReport DisabledInput.wellFormed .default) DisabledInput.wellTyped
  obtain ⟨htyped, hrecords, -⟩ := hends _ _ _ DisabledInput.recalc_report
  exact ⟨hpoints _ .refl, _, DisabledInput.recalc_report, htyped, hrecords rfl⟩

end Agent

end ReportCalc
