import ReportCalc.Proofs.Agent.Order
import ReportCalc.Proofs.Agent.Watched

/-!
# What recalculations fail with

An error that is recorded as an outcome goes no further than to the cell where it is recorded. So
whatever the protocols of the host do, the errors of a pass are fatal ones (`Eval.fatal_runPass`);
nesting deeper than `hostDepth` allows is none of them. With built-in protocols the fatal errors are
few, and one that is raised at any depth goes through all evaluations under way and ends the
recalculation (`Agent.recalc_fatal`).
-/

namespace ReportCalc

variable {σ α β : Type}

/-! ## Passes with any protocols -/

namespace Eval

/-- Evaluations of which every run fails with fatal errors only. -/
def fatal : Correspondence (Eval σ) (Eval σ) where
  Rel x _ := ∀ w e, (x.run w).1 = .error (.error e) → e.isFatal = true
  Admits e := e.isFatal = true
  Escapes _ := False
  not_signal := @EvaluationError.isSignal_of_false
  pure _ _ _ h := nomatch h
  fail he _ _ h := by
    cases h
    exact he
  bind {_ _ x _ f _} hx hf w e h := by
    rw [run_bind] at h
    rcases hrun : x.run w with ⟨i | a, w'⟩ <;> rw [hrun] at h
    · cases h
      exact hx w e (congrArg Prod.fst hrun)
    · exact hf a w' e h
  lift {_ _ x _ _} hx hf w e h := by
    cases x with
    | ok a => exact hf a rfl w e h
    | error e' =>
      cases h
      exact hx e rfl
  rescue {_ x _ f _} hx _ hf w e h := by
    rw [run_rescue] at h
    rcases hrun : x.run w with ⟨(e' | _) | a, w'⟩ <;> rw [hrun] at h
    · exact hf e' (hx w e' (congrArg Prod.fst hrun)) w' e h
    · cases h
    · cases h

theorem fatal_settles : (fatal : Correspondence (Eval σ) (Eval σ)).Settles :=
  Correspondence.settles_of (fun _ _ h => nomatch h) (fun _ _ _ h => nomatch h) fun _ _ _ => rfl

/-- Whatever an evaluation fails with, only its handler decides what is left of that. -/
theorem fatal_rescue {x : Eval σ α} {handle : EvaluationError → Eval σ α}
    (h : ∀ e, fatal.Rel (handle e) (handle e)) :
    fatal.Rel (rescue x handle) (rescue x handle) := by
  intro w e hrun
  rw [run_rescue] at hrun
  generalize x.run w = r at hrun
  rcases r with ⟨(e' | _) | a, w'⟩
  · exact h e' w' e hrun
  · cases hrun
  · cases hrun

theorem fatal_completedOr {completed : α → β} {failed : String → β} (x : Eval σ α) :
    fatal.Rel (completedOr completed failed x) (completedOr completed failed x) := by
  refine fatal_rescue fun e => ?_
  split
  · next hfatal => exact fatal.fail hfatal
  · exact fatal.pure _

/-- Of an error that is not fatal an outcome is made. -/
theorem fatal_outcome {phase : Phase} (ev : Operation → Eval σ Value) (rule : phase.Rule) :
    fatal.Rel (phase.outcome ev rule) (phase.outcome ev rule) := by
  cases phase with
  | execution =>
    exact fatal_rescue fun _ => fatal.ofExcept fun _ => EvaluationError.fatal_of_classify
  | validation => exact fatal_completedOr _
  | availability => exact fatal_completedOr _

/-- A pass fails with fatal errors only, whatever its evaluations do. -/
theorem fatal_runPass (ev : Context → Operation → Eval σ Value) (report : Report) (time : DateTime)
    (context : Phase → Context) :
    fatal.Rel (runPass ev report time context) (runPass ev report time context) := by
  refine fatal.bind (fun _ _ h => nomatch h) fun _ => fatal.forM fun phase _ =>
    fatal.forM fun target htarget => ?_
  obtain ⟨-, rule, hrule⟩ := Report.mem_targets_iff.1 htarget
  rw [Phase.visit_eq hrule]
  exact fatal.bind (fatal_settles _ _ (fatal_outcome _ rule)) fun _ => fatal.pure _

end Eval

/-- When passes fail with fatal errors only, so do recalculations; the limit on passes is one. The
induction is on the rounds. -/
theorem recalcRounds_fatal {pass : Pass σ}
    (h : ∀ report w e, (pass report w).1 = .error (.error e) → e.isFatal = true) (config : Config)
    (time : DateTime) (rounds : Nat) (s : Round σ) :
    ∀ e, (recalcRounds pass config time rounds s.report s.world s.summary).result =
      .error (.error e) → e.isFatal = true := by
  induction rounds generalizing s with
  | zero => exact fun e he => nomatch he
  | succ rounds ih =>
    rcases s.ends_or_reruns pass config time with ⟨done, hend⟩ | ⟨t, hst⟩
    · rw [hend.recalcRounds_eq]
      cases hend with
      | interrupted hpass =>
        intro e he
        exact h _ _ e ((congrArg Prod.fst hpass).trans (congrArg _ (Except.error.inj he)))
      | finished => exact fun e he => nomatch he
      | limited =>
        rintro _ ⟨⟩
        rfl
    · rw [hst.recalcRounds_eq]
      exact ih t

/-! ## Recalculations -/

/-- The structural errors are those that have no protocol for an operation, and those that ask for a
verdict too early. -/
theorem EvaluationError.isStructural_iff {e : EvaluationError} : e.isStructural = true ↔
    (∃ tag result, e = .protocolNotFound tag result) ∨
      ∃ operation phase required, e = .wrongPhase operation phase required := by
  cases e <;> simp [isStructural]

namespace Agent

/-- Recalculations fail fatally. Whatever the protocols of the host do, every error of a
recalculation is fatal. With built-in protocols only, and whatever the logs held before, a time that
is not in UTC is refused and everything left as it was, and as of a time in UTC the only errors are
an operation without a protocol, one in a phase in which it is not allowed, and too many passes. The
errors of operations are seen when the evaluations are under watch, where the recalculation does the
same, and every fatal failure that is seen there, at whatever depth, is the error of the
recalculation: nothing is recorded after it, and no node that was pending has an outcome. -/
theorem recalc_fatal {agent : Agent} {options : RecalcOptions σ} {time : DateTime} {host : σ} :
    (∀ e, (agent.recalc options time host).1 = .error (.error e) → e.isFatal = true) ∧
      (options.sources = [] → agent.report.WellFormed →
        (time.isUtc = false →
          agent.recalc options time host =
            (.error (.error (.nonUtcTimestamp time)), agent, host)) ∧
        (time.isUtc = true → ∀ e, (agent.recalc options time host).1 = .error (.error e) →
          ((∃ tag result, e = .protocolNotFound tag result) ∨
              ∃ operation phase required, e = .wrongPhase operation phase required) ∧
            (∃ f ∈ (agent.watchedRecalc options time).2.2.failures, f.error = e) ∨
          ∃ limit, e = .rerunLimitExceeded limit) ∧
        agent.recalc options time host =
          ((agent.watchedRecalc options time).1, (agent.watchedRecalc options time).2.1, host) ∧
        ∀ f ∈ (agent.watchedRecalc options time).2.2.failures, f.error.isFatal = true →
          f.Prevails (agent.recalc options time host).1
            (agent.recalc options time host).2.1.journal) := by
  have hfatal : ∀ e, (agent.recalc options time host).1 = .error (.error e) →
      e.isFatal = true := by
    intro e he
    cases hutc : time.isUtc with
    | false =>
      rw [recalc, recalcBy_of_not_utc hutc] at he
      cases he
      rfl
    | true =>
      simp only [recalc, recalcBy, DateTime.ensureUtc, hutc, if_true] at he
      exact recalcRounds_fatal (fun report => Eval.fatal_runPass _ report time _) _ _ _
        (agent.firstRound host) e he
  refine ⟨hfatal, fun hsources hwf => ?_⟩
  have heq : agent.recalc options time host = _ := recalc_eq_watched hsources host
  refine ⟨fun hutc => recalcBy_of_not_utc hutc _ _, fun hutc e he => ?_, heq, ?_⟩
  · have hwatched : (agent.watchedRecalc options time).1 = .error (.error e) :=
      (congrArg Prod.fst heq).symm.trans he
    exact ((prevails_of_watched hwf hutc).1 e hwatched (hfatal e he)).imp_left
      (.imp_left EvaluationError.isStructural_iff.1)
  · intro f hf hfatal
    cases hutc : time.isUtc with
    | false =>
      rw [watchedRecalc, recalcBy_of_not_utc hutc] at hf
      cases hf
    | true =>
      rw [heq]
      exact (prevails_of_watched hwf hutc).2 f hf hfatal

end Agent

namespace Forward

/-- An operation of which an operand asks for a verdict too early. -/
def hasty : Operation :=
  .sum [.const (.int 1) (.scalar .int), .availability (.inSection "reader" .none)] (.scalar .int)

/-- The operand of the cell that is read fails while the reader is evaluated. Its error ends the
recalculation, and neither of the cells has an outcome. -/
theorem recalc_fatal_forward :
    ∃ f ∈ ((Agent.ofReport (report hasty) .default).watchedRecalc (.none : RecalcOptions Unit)
        ⟨0, 0⟩).2.2.failures,
      f.pending = [⟨⟨position, 1, none⟩, .execution⟩, ⟨⟨position, 1, none⟩, .execution⟩,
          ⟨⟨position, 0, none⟩, .execution⟩] ∧
        f.Prevails ((Agent.ofReport (report hasty) .default).recalc .none ⟨0, 0⟩ ()).1
          ((Agent.ofReport (report hasty) .default).recalc .none ⟨0, 0⟩ ()).2.1.journal ∧
        ((Agent.ofReport (report hasty) .default).recalc .none ⟨0, 0⟩ ()).1 =
          .error (.error (.wrongPhase .availability .execution "AvailabilityCheck")) := by
  obtain ⟨-, hbuiltin⟩ :=
    @Agent.recalc_fatal Unit (.ofReport (report hasty) .default) .none ⟨0, 0⟩ ()
  obtain ⟨-, -, -, hprevails⟩ := hbuiltin rfl wellFormed
  exact ⟨_, .head _, rfl, hprevails _ (.head _) rfl, rfl⟩

end Forward

end ReportCalc
