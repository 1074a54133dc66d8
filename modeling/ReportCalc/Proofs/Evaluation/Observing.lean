import ReportCalc.Proofs.Evaluation.Failures
import ReportCalc.Proofs.Evaluation.Limit
import ReportCalc.Proofs.Evaluation.Simulation
import ReportCalc.Proofs.Evaluation.Watching

/-!
# What a watch sees

In a report with reference cycles an evaluation may go on without end, but a result that it has is
the one of the plain evaluation with enough fuel, and the logs hold such results only
(`Context.Confirms`, the invariant of a pass over any report). So when an evaluation under watch
fails with a fatal error, all nodes that were pending fail with it in the plain evaluation too
(`Context.Observes`), and none of them has an outcome in its log.
-/

namespace ReportCalc

open Filter

variable {α β : Type}

/-! ## Confirmed logs -/

namespace Context

/-- The journal of a pass of which the first phases are done: the log of every operation and chain
holds outcomes that the plain evaluation gives, and at least one if its phase is done. -/
structure Confirms (base : Context) (done : Nat) (j : Journal) : Prop where
  recorded : ∀ {a cell phase rule}, base.report.cellAt? a = some cell →
    cell.rule? phase = some rule → ∃ outcomes : List phase.Outcome,
      (j.logOf phase a).events =
          PassContent.marker passReason base.time :: outcomes.map (⟨base.time, ·⟩) ∧
        (∀ o ∈ outcomes, PassContent.isCleared o = false ∧
          Plain.Gives base ⟨a, cell⟩ phase rule (.ok o)) ∧
        (phase.rank < done → outcomes ≠ [])

variable {base : Context} {done : Nat} {j : Journal}

theorem confirms_clearLogs (hwf : base.report.WellFormed) (j : Journal) :
    base.Confirms 0 (j.clearLogs base.report passReason base.time) := by
  constructor
  intro a cell phase rule hcell hrule
  refine ⟨[], ?_, List.forall_mem_nil _, nofun⟩
  exact congrArg EventLog.events
    (Journal.logOf_clearLogs ((Report.mem_cells_iff hwf).2 hcell) (Cell.hasLog_of_rule? hrule))

/-- Recording an outcome that the plain evaluation gives keeps the invariant. -/
theorem Confirms.push (h : base.Confirms done j) {target : Resolved} {phase : Phase}
    {rule : phase.Rule} {outcome : phase.Outcome}
    (hcell : base.report.cellAt? target.address = some target.cell)
    (hrule : target.cell.rule? phase = some rule)
    (hcleared : PassContent.isCleared outcome = false)
    (hgives : Plain.Gives base target phase rule (.ok outcome)) :
    base.Confirms done (j.push phase.logKind target.address ⟨base.time, outcome⟩) := by
  constructor
  intro a cell p r hfound hr
  obtain ⟨outcomes, hevents, houtcomes, hdone⟩ := h.recorded hfound hr
  by_cases hne : (⟨target.address, phase⟩ : Node) = ⟨a, p⟩
  · cases hne
    cases hcell.symm.trans hfound
    cases hrule.symm.trans hr
    refine ⟨outcomes ++ [outcome], ?_, ?_, fun _ => by simp⟩
    · rw [Journal.logOf, Journal.log_push, EventLog.push]
      simp only [List.map_append, List.map_cons, List.map_nil, ← List.cons_append]
      exact congrArg (· ++ _) hevents
    · intro o ho
      rcases List.mem_append.1 ho with ho | ho
      · exact houtcomes o ho
      · cases List.mem_singleton.1 ho
        exact ⟨hcleared, hgives⟩
  · refine ⟨outcomes, (congrArg EventLog.events (Journal.log_append_of_ne ?_)).trans hevents,
      houtcomes, hdone⟩
    rwa [Journal.node_record, Phase.phase_logKind, Phase.phase_logKind]

/-- What is taken from a log is what the plain evaluation gives, and nothing is taken only while the
phase is not done. -/
theorem Confirms.settled? (h : base.Confirms done j) {cx : Context} (htime : cx.time = base.time)
    {target : Resolved} {phase : Phase} {rule : phase.Rule}
    (hcell : base.report.cellAt? target.address = some target.cell)
    (hrule : target.cell.rule? phase = some rule) :
    (∃ o, cx.settled? (j.log phase.logKind target.address) target.label = .ok (some ⟨cx.time, o⟩) ∧
        Plain.Gives base target phase rule (.ok o)) ∨
      cx.settled? (j.log phase.logKind target.address) target.label = .ok none ∧
        done ≤ phase.rank := by
  obtain ⟨outcomes, hevents, houtcomes, hdone⟩ := h.recorded hcell hrule
  have last : (j.log phase.logKind target.address).last? =
      (PassContent.marker passReason base.time ::
        outcomes.map ((⟨base.time, ·⟩) : phase.Outcome → Event phase.Outcome)).getLast? :=
    congrArg List.getLast? hevents
  rcases List.eq_nil_or_concat outcomes with rfl | ⟨before, o, rfl⟩
  · refine .inr ⟨?_, Nat.le_of_not_lt fun hrank => hdone hrank rfl⟩
    simp only [Context.settled?, last, List.map_nil, List.getLast?_singleton, PassContent.marker,
      PassContent.isCleared_cleared, if_true]
  · obtain ⟨hcleared, hgives⟩ := houtcomes o (by simp)
    have same : (cx.time == cx.time) = true := beq_self_eq_true cx.time.instant
    refine .inl ⟨o, ?_, hgives⟩
    rw [List.concat_eq_append, List.map_append, ← List.cons_append, List.map_cons, List.map_nil,
      List.getLast?_concat, ← htime] at last
    simp only [Context.settled?, last, hcleared, same, Bool.false_eq_true, if_false, if_true]

end Context

/-! ## Observations -/

/-- Whether the error is a mistake in the structure of a report: an operation without a protocol, or
one that asks for verdicts of a phase that is still to come. -/
def EvaluationError.isStructural : EvaluationError → Bool
  | .protocolNotFound .. | .wrongPhase .. => true
  | _ => false

theorem EvaluationError.isMismatch_of_isStructural {e : EvaluationError}
    (h : e.isStructural = true) : e.isMismatch = false := by
  cases e <;> first | rfl | cases h

namespace Context

/-- In the plain evaluation the rule of the node fails with the error. -/
def Fails (base : Context) (n : Node) (e : EvaluationError) : Prop :=
  ∃ cell rule, base.report.cellAt? n.address = some cell ∧ cell.rule? n.phase = some rule ∧
    Plain.Gives base ⟨n.address, cell⟩ n.phase rule (.error (.error e))

/-- The failure ends the evaluation that it was seen in: the evaluation has the same error, nothing
has been recorded since, and all nodes that were pending fail, but for these. -/
structure Ends (base : Context) (s : Node → Prop) (f : Failure) (r : Except Interrupt α)
    (j : Journal) : Prop where
  result : r = .error (.error f.error)
  journal : j = f.journal
  pending : ∀ n ∈ f.pending, s n ∨ base.Fails n f.error

/-- An evaluation under watch from a world of the pass: it keeps the invariant, has the result that
a computation without a journal has with enough fuel, leaves the pending nodes as they were, and
fails with the fatal failures that are seen in it. -/
structure Observes (base : Context) (done : Nat) (s : Node → Prop) (y : Fueled α) (w : World Watch)
    (r : Except Interrupt α) (w' : World Watch) : Prop where
  confirms : base.Confirms done w'.journal
  grows : w.journal.Grows (fun _ => True) w'.journal
  pending : w'.host.pending = w.host.pending
  gives : r = .error .outOfFuel ∨ ∀ᶠ fuel in atTop, y fuel = r
  structural : ∀ e, r = .error (.error e) → e.isFatal = true → e.isStructural = true
  failures : ∀ f ∈ w'.host.failures, f.error.isFatal = true →
    f ∈ w.host.failures ∨ base.Ends (fun n => n ∈ w.host.pending ∨ s n) f r w'.journal

variable {base : Context} {done : Nat} {s t : Node → Prop}

theorem Ends.mono {f : Failure} {r : Except Interrupt α} {j : Journal} (h : base.Ends s f r j)
    (hst : ∀ n, s n → t n ∨ base.Fails n f.error) : base.Ends t f r j where
  result := h.result
  journal := h.journal
  pending n hn := (h.pending n hn).elim (hst n) .inr

namespace Observes

variable {y : Fueled α} {z : Fueled β} {w w₁ w₂ : World Watch} {r : Except Interrupt α}
  {r' : Except Interrupt β}

theorem of_result (hw : base.Confirms done w.journal) (hgives : ∀ᶠ fuel in atTop, y fuel = r)
    (hstructural : ∀ e, r = .error (.error e) → e.isFatal = true → e.isStructural = true) :
    base.Observes done s y w r w where
  confirms := hw
  grows := .refl _ _
  pending := rfl
  gives := .inr hgives
  structural := hstructural
  failures _ hf _ := .inl hf

theorem outOfFuel (hw : base.Confirms done w.journal) :
    base.Observes done s y w (.error .outOfFuel) w where
  confirms := hw
  grows := .refl _ _
  pending := rfl
  gives := .inl rfl
  structural _ h := nomatch h
  failures _ hf _ := .inl hf

/-- Only the results with enough fuel say anything about the computation without a journal. -/
theorem congr {y' : Fueled α} (h : base.Observes done s y w r w₁)
    (hgives : (∀ᶠ fuel in atTop, y fuel = r) → ∀ᶠ fuel in atTop, y' fuel = r) :
    base.Observes done s y' w r w₁ := { h with gives := h.gives.imp_right hgives }

/-- An evaluation goes on after a first part that has not failed fatally. -/
theorem trans {x : Fueled β} (h : base.Observes done s y w r w₁)
    (hr : ∀ e, r = .error (.error e) → e.isFatal = false) (h' : base.Observes done s z w₁ r' w₂)
    (hgives : (∀ᶠ fuel in atTop, z fuel = r') → ∀ᶠ fuel in atTop, x fuel = r') :
    base.Observes done s x w r' w₂ where
  confirms := h'.confirms
  grows := h.grows.trans h'.grows
  pending := h'.pending.trans h.pending
  gives := h'.gives.imp_right hgives
  structural := h'.structural
  failures f hf hfatal := by
    rcases h'.failures f hf hfatal with hf | hends
    · refine (h.failures f hf hfatal).imp_right fun hends => ?_
      cases (hr _ hends.result).symm.trans hfatal
    · rw [h.pending] at hends
      exact .inr hends

/-- What follows a failure is not reached. -/
theorem error {i : Interrupt} {x : Fueled β} (h : base.Observes done s y w (.error i) w₁)
    (hgives : (∀ᶠ fuel in atTop, y fuel = .error i) → ∀ᶠ fuel in atTop, x fuel = .error i)
    (hst : ∀ n e, i = .error e → s n → t n ∨ base.Fails n e) :
    base.Observes done t x w (.error i) w₁ where
  confirms := h.confirms
  grows := h.grows
  pending := h.pending
  gives := h.gives.imp (fun h => by cases h; rfl) hgives
  structural e he := h.structural e (by cases he; rfl)
  failures f hf hfatal := by
    refine (h.failures f hf hfatal).imp_right fun hends => ?_
    have hi : i = .error f.error := Except.error.inj hends.result
    refine ⟨congrArg _ hi, hends.journal, fun n hn => ?_⟩
    rcases hends.pending n hn with (hpending | hs) | hfails
    · exact .inl (.inl hpending)
    · exact (hst n _ hi hs).imp_left .inr
    · exact .inr hfails

end Observes

/-- Tasks that are observed to do what computations without a journal do correspond to them. -/
def observing (base : Context) (done : Nat) (s : Node → Prop) :
    Correspondence (Task Watch) Fueled where
  Rel x y := ∀ w : World Watch, base.Confirms done w.journal →
    base.Observes done s y w (x.run w).1 (x.run w).2
  Admits e := e.isFatal = true → e.isStructural = true
  Escapes e := e.isFatal = true
  not_signal := @EvaluationError.isSignal_of_isFatal
  pure _ _ hw := .of_result hw (.of_forall fun _ => rfl) fun _ h => nomatch h
  fail he _ hw := .of_result hw (.of_forall fun _ => rfl) fun e h => by
    cases h
    exact he
  bind {_ _ x y f g} hx hf w hw := by
    have hx := hx w hw
    rw [Task.run_bind]
    generalize x.run w = p at hx ⊢
    rcases p with ⟨i | a, w₁⟩
    · refine hx.error (fun hgives => hgives.mono fun fuel hfuel => ?_) fun _ _ _ => .inl
      change y fuel >>= (fun a => g a fuel) = _
      rw [hfuel]
      rfl
    · rcases hx.gives with hout | hgives
      · cases hout
      refine hx.trans (fun _ h => nomatch h) (hf a w₁ hx.confirms) fun hrest => ?_
      refine (hgives.and hrest).mono fun fuel ⟨hfuel, hfuel'⟩ => ?_
      change y fuel >>= (fun a => g a fuel) = _
      rw [hfuel]
      exact hfuel'
  lift {_ _ x _ _} hx hf w hw := by
    cases x with
    | ok a => exact hf a rfl w hw
    | error e =>
      refine .of_result hw (.of_forall fun _ => rfl) fun e' h => ?_
      cases h
      exact hx e rfl
  rescue {_ x y f g} hx hescapes hf w hw := by
    have hx := hx w hw
    rw [Task.run_rescue]
    generalize x.run w = p at hx ⊢
    rcases p with ⟨(e | _) | a, w₁⟩
    · rcases hx.gives with hout | hgives
      · cases hout
      have handled {r} (hrest : ∀ᶠ fuel in atTop, g e fuel = r) :
          ∀ᶠ fuel in atTop, Eval.rescue y g fuel = r := by
        refine (hgives.and hrest).mono fun fuel ⟨hfuel, hfuel'⟩ => ?_
        rw [Fueled.rescue_apply, hfuel]
        exact hfuel'
      cases hlocal : e.isFatal with
      | false =>
        refine hx.trans (fun e' h => ?_) (hf e (fun hfatal => ?_) w₁ hx.confirms) handled
        · cases h
          exact hlocal
        · cases hlocal.symm.trans hfatal
      | true =>
        simp only [(hescapes e hlocal).1, Task.run_fail]
        refine hx.congr fun _ => handled (.of_forall fun fuel => ?_)
        rw [(hescapes e hlocal).2]
        rfl
    · exact { hx with gives := .inl rfl }
    · refine hx.congr fun hgives => hgives.mono fun fuel hfuel => ?_
      rw [Fueled.rescue_apply, hfuel]
      rfl

theorem observing_recordsLocal : (observing base done s).RecordsLocal :=
  ⟨fun _ hlocal hfatal => (by cases hlocal.not_fatal.symm.trans hfatal), fun _ => id⟩

/-! ### Operations and cells -/

/-- What fails under watch is seen, with the node that was entered among the pending ones. -/
theorem observing_watched {cx : Context} {n : Node} (hnode : cx.node? = some n)
    {x : Task Watch α} {y : Fueled α} (h : (observing base done (· = n)).Rel x y) :
    (observing base done (· = n)).Rel (.watched cx x) y := by
  intro w hw
  have hx := h { w with host := w.host.enter cx.node? } hw
  change Observes base done _ y w (x.run { w with host := w.host.enter cx.node? }).1
    { (x.run { w with host := w.host.enter cx.node? }).2 with host :=
      { (x.run { w with host := w.host.enter cx.node? }).2.host.note
          (x.run { w with host := w.host.enter cx.node? }).1
          (x.run { w with host := w.host.enter cx.node? }).2.journal with
        pending := w.host.pending } }
  generalize x.run { w with host := w.host.enter cx.node? } = p at hx ⊢
  obtain ⟨r, w'⟩ := p
  have entered {m : Node} (hm : m ∈ (w.host.enter cx.node?).pending) :
      m ∈ w.host.pending ∨ m = n := by
    rw [hnode] at hm
    exact (List.mem_cons.1 hm).symm
  refine ⟨hx.confirms, hx.grows, rfl, hx.gives, hx.structural, fun f hf hfatal => ?_⟩
  rcases Watch.mem_failures_note.1 hf with hf | ⟨hr, hf⟩
  · refine (hx.failures f hf hfatal).imp_right fun hends => hends.mono fun m hm => .inl ?_
    exact hm.elim entered .inr
  · refine .inr ⟨hr, (congrArg Failure.journal hf).symm, fun m hm => .inl (entered ?_)⟩
    rw [hf] at hm
    exact hx.pending ▸ hm

section Settle
variable {cx : Context} {target : Resolved} {phase : Phase} {rule : phase.Rule}
  {ev : Operation → Task Watch Value} {w : World Watch}

/-- A node that is fresh is given the outcome of its rule. When this fails, so does the node. -/
theorem Observes.settle_of_fresh (htime : cx.time = base.time)
    (hcell : base.report.cellAt? target.address = some target.cell)
    (hrule : target.cell.rule? phase = some rule)
    (hnone : cx.settled? (w.journal.log phase.logKind target.address) target.label = .ok none)
    (h : base.Observes done (· = ⟨target.address, phase⟩)
      (phase.outcome (Plain.limit (base.own target phase)) rule) w
      ((phase.outcome ev rule).run w).1 ((phase.outcome ev rule).run w).2) :
    base.Observes done s (do
        return ⟨cx.time, ← phase.outcome (Plain.limit (base.own target phase)) rule⟩) w
      ((settle phase.logKind cx target (phase.outcome ev rule)).run w).1
      ((settle phase.logKind cx target (phase.outcome ev rule)).run w).2 := by
  have hcleared {o : phase.Outcome} (ho : ((phase.outcome ev rule).run w).1 = .ok o) :
      PassContent.isCleared o = false := Task.isCleared_outcome ho
  rw [Task.run_settle, hnone]
  generalize (phase.outcome ev rule).run w = p at h hcleared
  obtain ⟨r, w'⟩ := p
  have gives {r' : Except Interrupt phase.Outcome} (hr : r = r')
      (hgives : ∀ᶠ fuel in atTop,
        (phase.outcome (Plain.limit (base.own target phase)) rule : Fueled _) fuel = r) :
      Plain.Gives base target phase rule r' :=
    hgives.mono fun fuel hfuel => (Plain.outcome_limit rule fuel).symm.trans (hfuel.trans hr)
  cases r with
  | ok o =>
    have hgives := h.gives.resolve_left nofun
    refine ⟨?_, ?_, h.pending, .inr (hgives.mono fun fuel hfuel => ?_),
      fun _ h => (nomatch h), fun f hf hfatal => ?_⟩
    · rw [htime]
      exact h.confirms.push hcell hrule (hcleared rfl) (gives rfl hgives)
    · exact h.grows.trans (.append trivial)
    · change (phase.outcome (Plain.limit _) rule : Fueled _) fuel >>= _ = _
      rw [hfuel]
      rfl
    · refine (h.failures f hf hfatal).imp_right fun hends => ?_
      cases hends.result
  | error i =>
    refine h.error (fun hgives => hgives.mono fun fuel hfuel => ?_) fun n e hi hn => ?_
    · change (phase.outcome (Plain.limit _) rule : Fueled _) fuel >>= _ = _
      rw [hfuel]
      rfl
    · subst hi hn
      have hgives := h.gives.resolve_left nofun
      exact .inr ⟨target.cell, rule, hcell, hrule, gives rfl hgives⟩

end Settle

/-- The operations of all nodes are observed to be evaluated as without a journal. -/
def EvaluatesObserved (base : Context) (ev : Context → Operation → Task Watch Value) : Prop :=
  ∀ cx n op, base.Within cx → cx.InNode n op →
    (observing base n.phase.rank (· = n)).Rel (ev cx op) (Plain.limit cx op)

section Evaluates
variable {ev : Context → Operation → Task Watch Value} (hev : base.EvaluatesObserved ev)
  {cx : Context} (hcx : base.Within cx)
include hev hcx

/-- A node of an earlier phase is recorded already; a node of this phase may be settled now. -/
theorem observing_settle {target : Resolved} {phase : Phase} {rule : phase.Rule}
    (hcell : base.report.cellAt? target.address = some target.cell)
    (hrule : target.cell.rule? phase = some rule) (hrank : phase.rank ≤ cx.phase.rank) :
    (observing base cx.phase.rank s).Rel
      (settle phase.logKind cx target (phase.outcome (ev (cx.enter target)) rule))
      (do return ⟨cx.time, ← phase.outcome (Plain.limit (cx.own target phase)) rule⟩) := by
  intro w hw
  rw [hcx.own_eq]
  rcases hw.settled? hcx.time_eq hcell hrule with ⟨o, hfound, hgives⟩ | ⟨hnone, hlater⟩
  · rw [Task.run_settle, hfound]
    refine .of_result hw (hgives.mono fun fuel hfuel => ?_) fun _ h => nomatch h
    change (phase.outcome (Plain.limit _) rule : Fueled _) fuel >>= _ = _
    rw [Plain.outcome_limit, hfuel]
    rfl
  · have hphase : phase = cx.phase := Phase.rank_injective (Nat.le_antisymm hrank hlater)
    refine .settle_of_fresh hcx.time_eq hcell hrule hnone ?_
    rw [hcx.enter_eq, ← hphase]
    rw [← hphase] at hw
    exact Correspondence.outcome observing_recordsLocal (fun x hx =>
      hev _ _ x (.own base target phase) (.of_mem_evaluated hcell hrule hx)) w hw

theorem observing_reads {target : Resolved} {phase : Phase}
    (hcell : base.report.cellAt? target.address = some target.cell) :
    (observing base cx.phase.rank s).Reads (.recorded ev) (Plain.access Plain.limit) cx target
      phase :=
  reads_of_settle observing_recordsLocal.admits fun hrank _ hrule =>
    observing_settle hev hcx hcell hrule hrank

/-- Where there is a current cell the only fatal errors of a rule are structural. -/
theorem observing_rule {n : Node} {op : Operation} (hop : cx.InNode n op) :
    (observing base n.phase.rank (· = n)).Rel (BuiltinRule.ofTag op.tag (.recorded ev) cx op)
      (BuiltinRule.ofTag op.tag (Plain.access Plain.limit) cx op) := by
  refine Correspondence.rule (fun e he hfatal => ?_) (fun x hx => hev cx n x hcx (hop.operand hx))
    fun ref _ target htarget => ?_
  · cases he with
    | recorded hlocal => cases hlocal.not_fatal.symm.trans hfatal
    | phase => rfl
    | locator _ hlocator =>
      rw [Context.resolve, hop.current] at hlocator
      have hlocal := EvaluationError.not_fatal_of_isUnlocated
        ((ReportIndex.resolve_yields _ _).error_of_eq hlocator)
      cases hlocal.symm.trans hfatal
  · have hcell := InNode.cellAt?_eq htarget
    rw [hcx.report_eq] at hcell
    rw [← hop.phase]
    exact observing_reads hev hcx hcell

end Evaluates

/-- The induction is on the fuel. -/
theorem evaluate_observed (base : Context) (fuel : Nat) :
    base.EvaluatesObserved (Watch.evaluate fuel) := by
  induction fuel with
  | zero => exact fun _ _ _ _ _ _ hw => .outOfFuel hw
  | succ fuel ih =>
    intro cx n op hcx hop
    have hnode : cx.node? = some n := by
      obtain ⟨target, htarget, haddress⟩ := Option.map_eq_some_iff.1 hop.current
      rw [node?, htarget, Option.map_some, haddress, hop.phase]
    have hstep : (observing base n.phase.rank (· = n)).Rel (Watch.evaluate (fuel + 1) cx op)
        (Plain.step Plain.limit cx op) := by
      refine observing_watched hnode ?_
      unfold Plain.step
      split
      · exact Correspondence.checked observing_recordsLocal.admits (observing_rule ih hcx hop)
      · exact Correspondence.fail _ fun _ => rfl
    exact fun w hw => (hstep w hw).congr Plain.eventually_limit

end Context

end ReportCalc
