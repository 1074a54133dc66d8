import ReportCalc.Proofs.Evaluation.Suspension
import ReportCalc.Proofs.Operation.Typing

/-!
# Chains decide by the first stop

A chain evaluates the conditions of its steps in order, and the first step that stops decides; what
stands behind it is not evaluated. What a chain comes to, step by step, is a relation between the
world before and the result with the world afterwards (`ValidationChain.Decides`,
`AvailabilityChain.Decides`), given what evaluating operations comes to. It relates every world to
exactly what running the chain gives (`chains_decide_by_first_stop`).
-/

namespace ReportCalc

variable {σ ι : Type}

/-! ## Going through steps -/

/-- The steps go on one after the other, from the first world to the second. -/
inductive GoesThrough (goesOn : ι → World σ → World σ → Prop) :
    List ι → World σ → World σ → Prop
  | nil {w : World σ} : GoesThrough goesOn [] w w
  | cons {step : ι} {rest : List ι} {w w₁ w₂ : World σ} (hstep : goesOn step w w₁)
      (hrest : GoesThrough goesOn rest w₁ w₂) : GoesThrough goesOn (step :: rest) w w₂

/-- The step is reached in the second world: all steps before it go on. -/
inductive GoesUpTo (goesOn : ι → World σ → World σ → Prop) :
    List ι → World σ → ι → World σ → Prop
  | here {step : ι} {rest : List ι} {w : World σ} : GoesUpTo goesOn (step :: rest) w step w
  | later {step target : ι} {rest : List ι} {w w₁ w₂ : World σ} (hstep : goesOn step w w₁)
      (hrest : GoesUpTo goesOn rest w₁ target w₂) : GoesUpTo goesOn (step :: rest) w target w₂

section Steps
variable {goesOn : ι → World σ → World σ → Prop}
  {steps steps' first after after' : List ι} {step : ι} {w w₁ : World σ}

/-- Either all steps go on, or one is reached that does not. -/
theorem goesThrough_or_exists_goesUpTo (goesOn : ι → World σ → World σ → Prop) (steps : List ι)
    (w : World σ) : (∃ w', GoesThrough goesOn steps w w') ∨
      ∃ step w₁, GoesUpTo goesOn steps w step w₁ ∧ ∀ w₂, ¬ goesOn step w₁ w₂ := by
  induction steps generalizing w with
  | nil => exact .inl ⟨w, .nil⟩
  | cons step rest ih =>
    by_cases hstep : ∃ w₁, goesOn step w w₁
    · obtain ⟨w₁, hstep⟩ := hstep
      rcases ih w₁ with ⟨w', hrest⟩ | ⟨last, w₂, hrest, hlast⟩
      · exact .inl ⟨w', .cons hstep hrest⟩
      · exact .inr ⟨last, w₂, .later hstep hrest, hlast⟩
    · exact .inr ⟨step, w, .here, not_exists.1 hstep⟩

/-- Steps that are not reached may be replaced. -/
theorem GoesUpTo.congr (hsteps : steps = first ++ after) (hsteps' : steps' = first ++ after')
    (hfirst : ∀ w', ¬ GoesThrough goesOn first w w') (h : GoesUpTo goesOn steps w step w₁) :
    GoesUpTo goesOn steps' w step w₁ := by
  subst hsteps hsteps'
  induction first generalizing w with
  | nil => exact absurd .nil (hfirst w)
  | cons s rest ih =>
    cases h with
    | here => exact .here
    | later hstep hrest =>
      exact .later hstep (ih (fun w' hw' => hfirst w' (.cons hstep hw')) hrest)

/-- What goes on to the end goes through every part of the steps. -/
theorem GoesThrough.of_append (h : GoesThrough goesOn (first ++ after) w w₁) :
    ∃ w₂, GoesThrough goesOn first w w₂ := by
  induction first generalizing w with
  | nil => exact ⟨w, .nil⟩
  | cons s rest ih =>
    cases h with
    | cons hstep hrest =>
      obtain ⟨w₂, hw₂⟩ := ih hrest
      exact ⟨w₂, .cons hstep hw₂⟩

section Running
variable {ρ : Type} (f : List ι → World σ → ρ)
  (hnext : ∀ {step rest w w₁}, goesOn step w w₁ → f (step :: rest) w = f rest w₁)
include hnext

/-- Running steps that all go on comes to what is left after them. -/
theorem GoesThrough.run_eq (h : GoesThrough goesOn steps w w₁) : f steps w = f [] w₁ := by
  induction h with
  | nil => rfl
  | cons hstep _ ih => exact (hnext hstep).trans ih

/-- Running steps comes to running them from any step on that is reached. -/
theorem GoesUpTo.exists_run_eq (h : GoesUpTo goesOn steps w step w₁) :
    ∃ rest, f steps w = f (step :: rest) w₁ := by
  induction h with
  | here => exact ⟨_, rfl⟩
  | later hstep _ ih =>
    obtain ⟨rest, hrest⟩ := ih
    exact ⟨rest, (hnext hstep).trans hrest⟩

end Running

end Steps

/-! ## What chains come to -/

/-- The text of a message: the fallback where there is no message operation, and otherwise what the
operation evaluates to, where an absent value is no text. -/
inductive Says (run : Operation → World σ → Except Interrupt Value × World σ)
    (fallback : Option String) :
    Option Operation → World σ → Except Interrupt (Option String) × World σ → Prop
  | fallback {w : World σ} : Says run fallback none w (.ok fallback, w)
  | text {op : Operation} {s : String} {w w' : World σ} (h : run op w = (.ok (.text s), w')) :
      Says run fallback (some op) w (.ok (some s), w')
  | absent {op : Operation} {w w' : World σ} (h : run op w = (.ok .null, w')) :
      Says run fallback (some op) w (.ok none, w')
  | mistyped {op : Operation} {v : Value} {w w' : World σ} (h : run op w = (.ok v, w'))
      (htext : ∀ s, v ≠ .text s) (hnull : v ≠ .null) :
      Says run fallback (some op) w (.error (.error
        (.typeMismatch (.optional .text) v.typeName "validation message")), w')
  | interrupted {op : Operation} {i : Interrupt} {w w' : World σ} (h : run op w = (.error i, w')) :
      Says run fallback (some op) w (.error i, w')

/-- What a validation chain makes of an interruption: a signal becomes the verdict of that name
without a message, and everything else is returned. -/
def Interrupt.verdict : Interrupt → Except Interrupt Validity
  | .error (.aborted _) => .ok ⟨.aborted, none⟩
  | .error (.notApplicable _) => .ok ⟨.notApplicable, none⟩
  | i => .error i

/-- The verdict with the text of its message, unless evaluating that was interrupted. -/
def Verdict.saying (verdict : Verdict) :
    Except Interrupt (Option String) → Except Interrupt Validity
  | .ok text => .ok ⟨verdict, text⟩
  | .error i => i.verdict

namespace ValidationStep

/-- The action that a step takes on a value of its condition, and the text that the value brings
along. -/
inductive Chooses :
    ValidationStep Operation → Value → ValidationAction Operation → Option String → Prop
  | check {condition : Operation} {onTrue onFalse : ValidationAction Operation} {holds : Bool} :
      Chooses (.check condition onTrue onFalse) (.bool holds) (if holds then onTrue else onFalse)
        none
  | checkWithMessage {condition : Operation} {onTrue onFalse : ValidationAction Operation}
      {holds : Bool} {message : Option String} :
      Chooses (.checkWithMessage condition onTrue onFalse) (.boolWithMessage holds message)
        (if holds then onTrue else onFalse) message

/-- The condition has a value on which the step goes on with the next. -/
def GoesOn (run : Operation → World σ → Except Interrupt Value × World σ)
    (step : ValidationStep Operation) (w w' : World σ) : Prop :=
  ∃ v brought, run step.condition w = (.ok v, w') ∧ step.Chooses v .next brought

end ValidationStep

/-- What a validation chain comes to. The first step that does not go on decides: by a stop with its
verdict and message, or by an error of its condition. If there is none, the end of the chain
decides. -/
inductive ValidationChain.Decides (run : Operation → World σ → Except Interrupt Value × World σ)
    (chain : ValidationRule) (w : World σ) : Except Interrupt Validity × World σ → Prop
  | stop {step : ValidationStep Operation} {w₁ w₂ w₃ : World σ} {v : Value} {verdict : Verdict}
      {message : Option Operation} {brought : Option String}
      {text : Except Interrupt (Option String)}
      (hreached : GoesUpTo (ValidationStep.GoesOn run) chain.steps w step w₁)
      (hcondition : run step.condition w₁ = (.ok v, w₂))
      (hstop : step.Chooses v (.stop verdict message) brought)
      (hmessage : Says run brought message w₂ (text, w₃)) :
      Decides run chain w (verdict.saying text, w₃)
  | mistyped {step : ValidationStep Operation} {w₁ w₂ : World σ} {v : Value}
      (hreached : GoesUpTo (ValidationStep.GoesOn run) chain.steps w step w₁)
      (hcondition : run step.condition w₁ = (.ok v, w₂))
      (hnone : ∀ action brought, ¬ step.Chooses v action brought) :
      Decides run chain w (.error (.error
        (.typeMismatch step.conditionKind v.typeName "validation condition")), w₂)
  | interrupted {step : ValidationStep Operation} {w₁ w₂ : World σ} {i : Interrupt}
      (hreached : GoesUpTo (ValidationStep.GoesOn run) chain.steps w step w₁)
      (hcondition : run step.condition w₁ = (.error i, w₂)) :
      Decides run chain w (i.verdict, w₂)
  | atEnd {w₁ w₂ : World σ} {text : Except Interrupt (Option String)}
      (hsteps : GoesThrough (ValidationStep.GoesOn run) chain.steps w w₁)
      (hmessage : Says run none chain.endMessage w₁ (text, w₂)) :
      Decides run chain w (chain.endVerdict.saying text, w₂)

/-- The condition has a truth value on which the step goes on with the next. -/
def AvailabilityStep.GoesOn (run : Operation → World σ → Except Interrupt Value × World σ)
    (step : AvailabilityStep Operation) (w w' : World σ) : Prop :=
  ∃ holds, run step.condition w = (.ok (.bool holds), w') ∧ step.action holds = .next

/-- What an availability chain comes to. The first step that does not go on decides, and every
interruption is returned. -/
inductive AvailabilityChain.Decides (run : Operation → World σ → Except Interrupt Value × World σ)
    (chain : AvailabilityRule) (w : World σ) : Except Interrupt Availability × World σ → Prop
  | stop {step : AvailabilityStep Operation} {w₁ w₂ : World σ} {holds : Bool}
      {availability : Availability}
      (hreached : GoesUpTo (AvailabilityStep.GoesOn run) chain.steps w step w₁)
      (hcondition : run step.condition w₁ = (.ok (.bool holds), w₂))
      (hstop : step.action holds = .stop availability) :
      Decides run chain w (.ok availability, w₂)
  | mistyped {step : AvailabilityStep Operation} {w₁ w₂ : World σ} {v : Value}
      (hreached : GoesUpTo (AvailabilityStep.GoesOn run) chain.steps w step w₁)
      (hcondition : run step.condition w₁ = (.ok v, w₂)) (hbool : ∀ b, v ≠ .bool b) :
      Decides run chain w (.error (.error
        (.typeMismatch .bool v.typeName "availability condition")), w₂)
  | interrupted {step : AvailabilityStep Operation} {w₁ w₂ : World σ} {i : Interrupt}
      (hreached : GoesUpTo (AvailabilityStep.GoesOn run) chain.steps w step w₁)
      (hcondition : run step.condition w₁ = (.error i, w₂)) :
      Decides run chain w (.error i, w₂)
  | atEnd {w₁ : World σ} (hsteps : GoesThrough (AvailabilityStep.GoesOn run) chain.steps w w₁) :
      Decides run chain w (.ok chain.endVerdict, w₁)

/-! ## There is always a decision -/

section Total
variable (run : Operation → World σ → Except Interrupt Value × World σ)

theorem exists_says (fallback : Option String) (message : Option Operation) (w : World σ) :
    ∃ text w', Says run fallback message w (text, w') := by
  cases message with
  | none => exact ⟨_, _, .fallback⟩
  | some op =>
    rcases hrun : run op w with ⟨i | v, w'⟩
    · exact ⟨_, _, .interrupted hrun⟩
    · cases v with
      | text s => exact ⟨_, _, .text hrun⟩
      | null => exact ⟨_, _, .absent hrun⟩
      | _ => exact ⟨_, _, .mistyped hrun nofun nofun⟩

theorem ValidationChain.exists_decides (chain : ValidationRule) (w : World σ) :
    ∃ r, chain.Decides run w r := by
  rcases goesThrough_or_exists_goesUpTo (ValidationStep.GoesOn run) chain.steps w with
    ⟨w₁, hsteps⟩ | ⟨step, w₁, hreached, hlast⟩
  · obtain ⟨text, w₂, hmessage⟩ := exists_says run none chain.endMessage w₁
    exact ⟨_, .atEnd hsteps hmessage⟩
  · rcases hcondition : run step.condition w₁ with ⟨i | v, w₂⟩
    · exact ⟨_, .interrupted hreached hcondition⟩
    · by_cases hchooses : ∃ action brought, step.Chooses v action brought
      · obtain ⟨action, brought, hchooses⟩ := hchooses
        cases action with
        | next => exact absurd ⟨v, brought, hcondition, hchooses⟩ (hlast w₂)
        | stop verdict message =>
          obtain ⟨text, w₃, hmessage⟩ := exists_says run brought message w₂
          exact ⟨_, .stop hreached hcondition hchooses hmessage⟩
      · refine ⟨_, .mistyped hreached hcondition fun action brought h => ?_⟩
        exact hchooses ⟨action, brought, h⟩

theorem AvailabilityChain.exists_decides (chain : AvailabilityRule) (w : World σ) :
    ∃ r, chain.Decides run w r := by
  rcases goesThrough_or_exists_goesUpTo (AvailabilityStep.GoesOn run) chain.steps w with
    ⟨w₁, hsteps⟩ | ⟨step, w₁, hreached, hlast⟩
  · exact ⟨_, .atEnd hsteps⟩
  · rcases hcondition : run step.condition w₁ with ⟨i | v, w₂⟩
    · exact ⟨_, .interrupted hreached hcondition⟩
    · cases v with
      | bool holds =>
        cases haction : step.action holds with
        | next => exact absurd ⟨holds, hcondition, haction⟩ (hlast w₂)
        | stop availability => exact ⟨_, .stop hreached hcondition haction⟩
      | _ => exact ⟨_, .mistyped hreached hcondition nofun⟩

end Total

/-! ## What is not reached does not matter -/

section Congruence
variable {run : Operation → World σ → Except Interrupt Value × World σ} {w : World σ}

/-- Where some step of the first part decides, the chain may continue behind that part as it likes,
and end as it likes. -/
theorem ValidationChain.Decides.congr {chain chain' : ValidationRule}
    {first after after' : List (ValidationStep Operation)} {r : Except Interrupt Validity × World σ}
    (hchain : chain.steps = first ++ after) (hchain' : chain'.steps = first ++ after')
    (hfirst : ∀ w', ¬ GoesThrough (ValidationStep.GoesOn run) first w w')
    (h : chain.Decides run w r) : chain'.Decides run w r := by
  cases h with
  | stop hreached hcondition hstop hmessage =>
    exact .stop (hreached.congr hchain hchain' hfirst) hcondition hstop hmessage
  | mistyped hreached hcondition hnone =>
    exact .mistyped (hreached.congr hchain hchain' hfirst) hcondition hnone
  | interrupted hreached hcondition =>
    exact .interrupted (hreached.congr hchain hchain' hfirst) hcondition
  | atEnd hsteps =>
    obtain ⟨w₂, hw₂⟩ := (hchain ▸ hsteps).of_append
    exact absurd hw₂ (hfirst w₂)

theorem AvailabilityChain.Decides.congr {chain chain' : AvailabilityRule}
    {first after after' : List (AvailabilityStep Operation)}
    {r : Except Interrupt Availability × World σ} (hchain : chain.steps = first ++ after)
    (hchain' : chain'.steps = first ++ after')
    (hfirst : ∀ w', ¬ GoesThrough (AvailabilityStep.GoesOn run) first w w')
    (h : chain.Decides run w r) : chain'.Decides run w r := by
  cases h with
  | stop hreached hcondition hstop =>
    exact .stop (hreached.congr hchain hchain' hfirst) hcondition hstop
  | mistyped hreached hcondition hbool =>
    exact .mistyped (hreached.congr hchain hchain' hfirst) hcondition hbool
  | interrupted hreached hcondition =>
    exact .interrupted (hreached.congr hchain hchain' hfirst) hcondition
  | atEnd hsteps =>
    obtain ⟨w₂, hw₂⟩ := (hchain ▸ hsteps).of_append
    exact absurd hw₂ (hfirst w₂)

end Congruence

/-! ## Running chains -/

/-- What a step decides on a value is the action that it chooses, or an error when there is none. -/
theorem ValidationStep.Chooses.decide_eq {step : ValidationStep Operation} {v : Value}
    {action : ValidationAction Operation} {brought : Option String}
    (h : step.Chooses v action brought) : step.decide v = .ok (action, brought) := by
  cases h <;> rfl

theorem ValidationStep.decide_eq_error {step : ValidationStep Operation} {v : Value}
    (h : ∀ action brought, ¬ step.Chooses v action brought) :
    step.decide v =
      .error (.typeMismatch step.conditionKind v.typeName "validation condition") := by
  cases step with
  | check condition onTrue onFalse =>
    cases v with
    | bool holds => exact absurd .check (h _ _)
    | _ => rfl
  | checkWithMessage condition onTrue onFalse =>
    cases v with
    | boolWithMessage holds message => exact absurd .checkWithMessage (h _ _)
    | _ => rfl

namespace Task

section Chains
variable {ev : Operation → Task σ Value}
  {run : Operation → World σ → Except Interrupt Value × World σ}
  (hrun : ∀ op w, (ev op).run w = run op w) {w w₁ : World σ}
include hrun

/-! ### Validation -/

theorem run_messageText {fallback : Option String} {message : Option Operation}
    {r : Except Interrupt (Option String) × World σ} (h : Says run fallback message w r) :
    (messageText ev message fallback).run w = r := by
  cases h with
  | fallback => rfl
  | text h | absent h =>
    simp only [messageText, run_bind, hrun, h]
    rfl
  | interrupted h => simp only [messageText, run_bind, hrun, h]
  | @mistyped op v w w' h htext hnull =>
    simp only [messageText, run_bind, hrun, h]
    cases v with
    | text s => exact absurd rfl (htext s)
    | null => exact absurd rfl hnull
    | _ => rfl

theorem run_saying {fallback : Option String} {message : Option Operation} (verdict : Verdict)
    {text : Except Interrupt (Option String)} (h : Says run fallback message w (text, w₁)) :
    (messageText ev message fallback >>= fun text =>
        (pure ⟨verdict, text⟩ : Task σ Validity)).run w =
      (text.map (⟨verdict, ·⟩), w₁) := by
  rw [run_bind, run_messageText hrun h]
  cases text <;> rfl

section Step
variable {atEnd : Task σ Validity} {step : ValidationStep Operation}
  {rest : List (ValidationStep Operation)}

theorem run_runValidation_of_error {i : Interrupt} (h : run step.condition w = (.error i, w₁)) :
    (runValidation ev atEnd (step :: rest)).run w = (.error i, w₁) := by
  rw [runValidation, run_bind, hrun, h]

theorem run_runValidation_of_ok {v : Value} (h : run step.condition w = (.ok v, w₁)) :
    (runValidation ev atEnd (step :: rest)).run w =
      match step.decide v with
      | .error e => (.error (.error e), w₁)
      | .ok (.next, _) => (runValidation ev atEnd rest).run w₁
      | .ok (.stop verdict message, brought) =>
        (messageText ev message brought >>= fun text =>
          (pure ⟨verdict, text⟩ : Task σ Validity)).run w₁ := by
  rw [runValidation, run_bind, hrun, h]
  dsimp only
  rcases step.decide v with e | ⟨_ | ⟨verdict, message⟩, brought⟩ <;> rfl

/-- A step that goes on leaves the decision to those behind it. -/
theorem run_runValidation_of_goesOn (h : step.GoesOn run w w₁) :
    (runValidation ev atEnd (step :: rest)).run w = (runValidation ev atEnd rest).run w₁ := by
  obtain ⟨v, brought, hcondition, hchooses⟩ := h
  rw [run_runValidation_of_ok hrun hcondition, hchooses.decide_eq]

end Step

omit hrun in
/-- A chain makes verdicts of the signals with which its steps are interrupted. -/
theorem run_rescue_signalVerdict {x : Task σ Validity} {r : Except Interrupt Validity}
    (h : x.run w = (r, w₁)) :
    (Eval.rescue x signalVerdict).run w = (r.tryCatch Interrupt.verdict, w₁) := by
  rw [run_rescue, h]
  rcases r with (e | _) | v
  · cases e <;> rfl
  · rfl
  · rfl

/-- Running a validation chain gives what the chain comes to. -/
theorem run_validateChain {chain : ValidationRule} {r : Except Interrupt Validity × World σ}
    (h : chain.Decides run w r) : (validateChain ev chain).run w = r := by
  let atEnd : Task σ Validity :=
    messageText ev chain.endMessage none >>= fun text => pure ⟨chain.endVerdict, text⟩
  let runFrom (steps : List (ValidationStep Operation)) := (runValidation ev atEnd steps).run
  have hnext {step rest w w₁} : step.GoesOn run w w₁ → runFrom (step :: rest) w = runFrom rest w₁ :=
    run_runValidation_of_goesOn hrun
  suffices hsteps : ∃ s w', runFrom chain.steps w = (s, w') ∧
      r = (s.tryCatch Interrupt.verdict, w') by
    obtain ⟨s, w', hsteps, rfl⟩ := hsteps
    exact run_rescue_signalVerdict hsteps
  cases h with
  | @stop step w₁ w₂ w₃ v verdict message brought text hreached hcondition hstop hmessage =>
    obtain ⟨rest, hrest⟩ := hreached.exists_run_eq runFrom hnext
    have hhere : runFrom (step :: rest) w₁ = (text.map (⟨verdict, ·⟩), w₃) := by
      refine (run_runValidation_of_ok hrun hcondition).trans ?_
      rw [hstop.decide_eq]
      exact run_saying hrun verdict hmessage
    refine ⟨_, _, hrest.trans hhere, ?_⟩
    cases text <;> rfl
  | @mistyped step w₁ w₂ v hreached hcondition hnone =>
    obtain ⟨rest, hrest⟩ := hreached.exists_run_eq runFrom hnext
    refine ⟨_, _, hrest.trans (run_runValidation_of_ok hrun hcondition), ?_⟩
    rw [ValidationStep.decide_eq_error hnone]
    rfl
  | interrupted hreached hcondition =>
    obtain ⟨rest, hrest⟩ := hreached.exists_run_eq runFrom hnext
    exact ⟨_, _, hrest.trans (run_runValidation_of_error hrun hcondition), rfl⟩
  | @atEnd w₁ w₂ text hsteps hmessage =>
    refine ⟨_, _, (hsteps.run_eq runFrom hnext).trans (run_saying hrun _ hmessage), ?_⟩
    cases text <;> rfl

/-! ### Availability -/

section Step
variable {atEnd : Availability} {step : AvailabilityStep Operation}
  {rest : List (AvailabilityStep Operation)}

theorem run_runAvailability_of_error {i : Interrupt} (h : run step.condition w = (.error i, w₁)) :
    (runAvailability ev atEnd (step :: rest)).run w = (.error i, w₁) := by
  rw [runAvailability, run_bind, hrun, h]

theorem run_runAvailability_of_mistyped {v : Value} (h : run step.condition w = (.ok v, w₁))
    (hbool : ∀ b, v ≠ .bool b) : (runAvailability ev atEnd (step :: rest)).run w =
      (.error (.error (.typeMismatch .bool v.typeName "availability condition")), w₁) := by
  rw [runAvailability, run_bind, hrun, h]
  cases v with
  | bool b => exact absurd rfl (hbool b)
  | _ => rfl

theorem run_runAvailability_of_bool {holds : Bool}
    (h : run step.condition w = (.ok (.bool holds), w₁)) :
    (runAvailability ev atEnd (step :: rest)).run w =
      match step.action holds with
      | .next => (runAvailability ev atEnd rest).run w₁
      | .stop availability => (.ok availability, w₁) := by
  rw [runAvailability, run_bind, hrun, h]
  change (match step.action holds with
    | .next => runAvailability ev atEnd rest
    | .stop availability => pure availability : Task σ Availability).run w₁ = _
  cases step.action holds <;> rfl

end Step

/-- Running an availability chain gives what the chain comes to. -/
theorem run_checkChain {chain : AvailabilityRule} {r : Except Interrupt Availability × World σ}
    (h : chain.Decides run w r) : (checkChain ev chain).run w = r := by
  let runFrom (steps : List (AvailabilityStep Operation)) :=
    (runAvailability ev chain.endVerdict steps).run
  have hnext {step rest w w₁} (h : AvailabilityStep.GoesOn run step w w₁) :
      runFrom (step :: rest) w = runFrom rest w₁ := by
    obtain ⟨holds, hcondition, haction⟩ := h
    exact (run_runAvailability_of_bool hrun hcondition).trans (by rw [haction])
  change runFrom chain.steps w = r
  cases h with
  | @stop step w₁ w₂ holds availability hreached hcondition hstop =>
    obtain ⟨rest, hrest⟩ := hreached.exists_run_eq runFrom hnext
    refine hrest.trans ((run_runAvailability_of_bool hrun hcondition).trans ?_)
    rw [hstop]
  | @mistyped step w₁ w₂ v hreached hcondition hbool =>
    obtain ⟨rest, hrest⟩ := hreached.exists_run_eq runFrom hnext
    exact hrest.trans (run_runAvailability_of_mistyped hrun hcondition hbool)
  | interrupted hreached hcondition =>
    obtain ⟨rest, hrest⟩ := hreached.exists_run_eq runFrom hnext
    exact hrest.trans (run_runAvailability_of_error hrun hcondition)
  | atEnd hsteps => exact hsteps.run_eq runFrom hnext

end Chains

end Task

/-! ## Deciding by the first stop -/

/-- Chains give what they come to step by step, and depend on nothing behind the step that
decides. -/
structure DecidesByFirstStop (run : Operation → World σ → Except Interrupt Value × World σ)
    (validate : ValidationRule → World σ → Except Interrupt Validity × World σ)
    (check : AvailabilityRule → World σ → Except Interrupt Availability × World σ) : Prop where
  validate_eq_iff {chain : ValidationRule} {w : World σ} {r : Except Interrupt Validity × World σ} :
    validate chain w = r ↔ chain.Decides run w r
  validate_congr {chain chain' : ValidationRule}
    {first after after' : List (ValidationStep Operation)} {w : World σ}
    (hchain : chain.steps = first ++ after) (hchain' : chain'.steps = first ++ after')
    (hfirst : ∀ w', ¬ GoesThrough (ValidationStep.GoesOn run) first w w') :
    validate chain w = validate chain' w
  check_eq_iff {chain : AvailabilityRule} {w : World σ}
    {r : Except Interrupt Availability × World σ} : check chain w = r ↔ chain.Decides run w r
  check_congr {chain chain' : AvailabilityRule}
    {first after after' : List (AvailabilityStep Operation)} {w : World σ}
    (hchain : chain.steps = first ++ after) (hchain' : chain'.steps = first ++ after')
    (hfirst : ∀ w', ¬ GoesThrough (AvailabilityStep.GoesOn run) first w w') :
    check chain w = check chain' w

/-- What gives every decision decides by the first stop, as there is always a decision. -/
theorem DecidesByFirstStop.of_decides {run : Operation → World σ → Except Interrupt Value × World σ}
    {validate : ValidationRule → World σ → Except Interrupt Validity × World σ}
    {check : AvailabilityRule → World σ → Except Interrupt Availability × World σ}
    (hvalidate : ∀ {chain w r}, chain.Decides run w r → validate chain w = r)
    (hcheck : ∀ {chain w r}, chain.Decides run w r → check chain w = r) :
    DecidesByFirstStop run validate check where
  validate_eq_iff {chain w r} := by
    refine ⟨fun h => ?_, hvalidate⟩
    obtain ⟨r', hr'⟩ := chain.exists_decides run w
    rwa [← h, hvalidate hr']
  validate_congr {chain chain' _ _ _ w} hchain hchain' hfirst := by
    obtain ⟨r, hr⟩ := chain.exists_decides run w
    rw [hvalidate hr, hvalidate (hr.congr hchain hchain' hfirst)]
  check_eq_iff {chain w r} := by
    refine ⟨fun h => ?_, hcheck⟩
    obtain ⟨r', hr'⟩ := chain.exists_decides run w
    rwa [← h, hcheck hr']
  check_congr {chain chain' _ _ _ w} hchain hchain' hfirst := by
    obtain ⟨r, hr⟩ := chain.exists_decides run w
    rw [hcheck hr, hcheck (hr.congr hchain hchain' hfirst)]

theorem Task.decidesByFirstStop (ev : Operation → Task σ Value) :
    DecidesByFirstStop (fun op => (ev op).run) (fun chain => (validateChain ev chain).run)
      fun chain => (checkChain ev chain).run :=
  .of_decides (run_validateChain fun _ _ => rfl) (run_checkChain fun _ _ => rfl)

/-- An evaluation in one go runs chains as the task of a single step does. -/
theorem Eval.decidesByFirstStop (ev : Operation → Eval σ Value) :
    DecidesByFirstStop (fun op => (ev op).run) (fun chain => (validateChain ev chain).run)
      fun chain => (checkChain ev chain).run := by
  let step (op : Operation) : Task σ Value := .ofEval (ev op)
  have hstep (op : Operation) : Task.agreement.Rel (step op) (ev op) :=
    Task.agreement_ofEval (ev op)
  have hlocal := (Task.agreement_recordsLocal (σ := σ)).admits
  have hvalidate (chain : ValidationRule) :
      Task.agreement.Rel (validateChain step chain) (validateChain ev chain) :=
    Correspondence.validateChain hlocal fun op _ => hstep op
  have hcheck (chain : AvailabilityRule) :
      Task.agreement.Rel (checkChain step chain) (checkChain ev chain) :=
    Correspondence.checkChain hlocal fun op _ => hstep op
  refine .of_decides (fun {chain w r} h => ?_) fun {chain w r} h => ?_
  · exact (hvalidate chain w).symm.trans (Task.run_validateChain (fun _ _ => rfl) h)
  · exact (hcheck chain w).symm.trans (Task.run_checkChain (fun _ _ => rfl) h)

end ReportCalc
