import ReportCalc.Agent.Recalculation
import ReportCalc.Proofs.Report.Changes

/-!
# Changing inputs

An `InputUpdate` changes what input cells hold, and nothing else of them. It is a change of cells
in place (`Cell.update_eq_change`), so the report in which it is carried out has the same cells at
the same addresses, the same index and the same references; only the values and the logs of inputs
differ. Clearing disabled inputs is such an update (`Report.clearInputs_eq`), and so is setting one
input (`Agent.setInput_of_input`).
-/

namespace ReportCalc

/-- A change of what input cells hold, depending on their addresses. -/
structure InputUpdate where
  apply : CellAddress → InputCell → InputCell
  id_apply : ∀ a c, (apply a c).id = c.id
  span_apply : ∀ a c, (apply a c).span = c.span
  kind_apply : ∀ a c, (apply a c).kind = c.kind
  rules_apply : ∀ a c, (apply a c).rules = c.rules

/-- Leaving inputs as they are. -/
def InputUpdate.identity : InputUpdate where
  apply _ c := c
  id_apply _ _ := rfl
  span_apply _ _ := rfl
  kind_apply _ _ := rfl
  rules_apply _ _ := rfl

variable {u v w : InputUpdate}

/-! ## Cells -/

namespace Cell

/-- The cell with what it holds changed, if it is an input. -/
def updateInput (u : InputUpdate) (a : CellAddress) : Cell → Cell
  | .input c => .input (u.apply a c)
  | c => c

/-- The cell with what it holds changed; in a slotted cell the inputs in the slots are changed. -/
def update (u : InputUpdate) (a : CellAddress) : Cell → Cell
  | .slotted c =>
    match a.slot with
    | none => .slotted { c with
        slots := c.slots.map fun (slot, inner) => (slot, inner.updateInput u (a.withSlot slot)) }
    | some _ => .slotted c
  | c => c.updateInput u a

end Cell

/-- An update as a change of cells, which leaves cells other than inputs alone. -/
def InputUpdate.change (u : InputUpdate) : CellChange where
  apply := Cell.updateInput u
  id_apply a c := by
    cases c with
    | input c => exact u.id_apply a c
    | _ => rfl
  slotted?_apply _ c := by cases c <;> rfl

/-- One update after another, as changes of cells. -/
theorem InputUpdate.change_apply_apply (h : ∀ a c, v.apply a (u.apply a c) = w.apply a c)
    (a : CellAddress) (c : Cell) :
    v.change.apply a (u.change.apply a c) = w.change.apply a c := by
  cases c with
  | input c => exact congrArg Cell.input (h a c)
  | _ => rfl

namespace Cell

variable {a : CellAddress} {c : Cell}

theorem update_eq_change : c.update u a = c.change u.change a := by cases c <;> rfl

@[simp] theorem update_input (c : InputCell) : (input c).update u a = .input (u.apply a c) := rfl

@[simp] theorem update_const (c : ConstCell) : (const c).update u a = .const c := rfl

@[simp] theorem update_operation (c : OperationCell) :
    (operation c).update u a = .operation c := rfl

@[simp] theorem update_null (c : NullCell) : (null c).update u a = .null c := rfl

@[simp] theorem id_update : (c.update u a).id = c.id := by rw [update_eq_change, id_change]

@[simp] theorem label_update : (c.update u a).label = c.label := by simp [label]

@[simp] theorem span_update : (c.update u a).span = c.span := by
  cases c with
  | input c => exact u.span_apply a c
  | slotted c => cases h : a.slot <;> simp [update, h, span]
  | _ => rfl

@[simp] theorem rules?_update : (c.update u a).rules? = c.rules? := by
  cases c with
  | input c => exact congrArg some (u.rules_apply a c)
  | slotted c => cases h : a.slot <;> simp [update, h, rules?]
  | _ => rfl

@[simp] theorem operation?_update : (c.update u a).operation? = c.operation? := by
  cases c with
  | slotted c => cases h : a.slot <;> simp [update, h, operation?]
  | _ => rfl

@[simp] theorem input?_update : (c.update u a).input? = c.input?.map (u.apply a) := by
  cases c with
  | slotted c => cases h : a.slot <;> simp [update, h, input?]
  | _ => rfl

@[simp] theorem validation?_update : (c.update u a).validation? = c.validation? := by
  simp [validation?]

@[simp] theorem availability?_update : (c.update u a).availability? = c.availability? := by
  simp [availability?]

@[simp] theorem weight_update : (c.update u a).weight = c.weight := by simp [weight]

theorem update_update (h : ∀ a c, v.apply a (u.apply a c) = w.apply a c) :
    (c.update u a).update v a = c.update w a := by
  simp only [update_eq_change]
  exact change_change (InputUpdate.change_apply_apply h)

end Cell

/-- An update that leaves some inputs as they are leaves all cells there as they are. -/
theorem InputUpdate.change_apply_eq_self {b : CellAddress} (h : ∀ c, u.apply b c = c) (c : Cell) :
    u.change.apply b c = c := by
  cases c with
  | input c => exact congrArg Cell.input (h c)
  | _ => rfl

/-! ## Reports -/

/-- The cell at the same address in the updated report. -/
def Resolved.update (u : InputUpdate) (target : Resolved) : Resolved :=
  { target with cell := target.cell.update u target.address }

theorem Resolved.update_eq_change (target : Resolved) : target.update u = target.change u.change :=
  congrArg (Resolved.mk target.address) Cell.update_eq_change

@[simp] theorem Resolved.label_update (target : Resolved) :
    (target.update u).label = target.label := Cell.label_update

namespace Report

/-- The report with what its inputs hold changed. -/
def update (u : InputUpdate) (r : Report) : Report := r.mapCells (Cell.update u)

variable {r : Report}

theorem update_eq_change : r.update u = r.change u.change := by
  have cells : Cell.update u = Cell.change u.change :=
    funext fun _ => funext fun _ => Cell.update_eq_change
  rw [update, change, cells]

theorem cells_update : (r.update u).cells = r.cells.map fun (a, c) => (a, c.update u a) := by
  simp only [update_eq_change, cells_change, Cell.update_eq_change]

theorem update_update (h : ∀ a c, v.apply a (u.apply a c) = w.apply a c) :
    (r.update u).update v = r.update w := by
  simp only [update_eq_change]
  exact change_change (InputUpdate.change_apply_apply h)

theorem update_eq_self (h : ∀ a c, u.apply a c = c) : r.update u = r :=
  update_eq_change.trans (change_eq_self fun a => InputUpdate.change_apply_eq_self (h a))

@[simp] theorem update_identity : r.update .identity = r := update_eq_self fun _ _ => rfl

theorem WellFormed.update (h : r.WellFormed) : (r.update u).WellFormed := by
  rw [update_eq_change]
  exact h.change

theorem cellAt?_update (h : r.WellFormed) {a : CellAddress} :
    (r.update u).cellAt? a = (r.cellAt? a).map (Cell.update u a) := by
  rw [update_eq_change, cellAt?_change h]
  exact congrArg (Option.map · _) (funext fun _ => Cell.update_eq_change.symm)

theorem cellAt?_update_input (h : r.WellFormed) {a : CellAddress} {c : InputCell}
    (hc : r.cellAt? a = some (.input c)) :
    (r.update u).cellAt? a = some (.input (u.apply a c)) := by
  rw [cellAt?_update h, hc, Option.map_some, Cell.update_input]

/-- Inputs of the updated report are inputs of the report. -/
theorem exists_input_of_update (h : r.WellFormed) {a : CellAddress} {d : InputCell}
    (hd : (r.update u).cellAt? a = some (.input d)) :
    ∃ c, r.cellAt? a = some (.input c) ∧ d = u.apply a c := by
  rw [cellAt?_update h] at hd
  obtain ⟨cell, hcell, hupdate⟩ := Option.map_eq_some_iff.1 hd
  have hinput := Cell.input?_update (u := u) (a := a) (c := cell)
  rw [hupdate] at hinput
  cases cell with
  | input c => exact ⟨c, hcell, Option.some.inj hinput⟩
  | _ => cases hinput

@[simp] theorem sectionId_update (n : Nat) : (r.update u).sectionId n = r.sectionId n := by
  rw [update_eq_change, sectionId_change]

@[simp] theorem evaluationDepth_update : (r.update u).evaluationDepth = r.evaluationDepth := by
  unfold evaluationDepth
  rw [cells_update, List.foldr_map]
  simp only [Cell.weight_update]

theorem targets_update {phase : Phase} :
    (r.update u).targets phase = (r.targets phase).map (Resolved.update u) := by
  have concerns (c : Cell) (a : CellAddress) :
      phase.concerns (c.update u a) = phase.concerns c := by
    cases phase <;> simp [Phase.concerns]
  simp only [targets, cells_update, List.filter_map, List.map_map]
  refine congrArg₂ _ rfl (List.filter_congr fun entry _ => ?_)
  exact concerns _ _

end Report

namespace ReportIndex

variable {r : Report}

/-- The index does not depend on what inputs hold. -/
@[simp] theorem build_update : build (r.update u) = build r := by
  rw [Report.update_eq_change, build_change]

/-- A locator means the same place as before. -/
theorem locate_update (h : r.WellFormed) {index : ReportIndex} {locator : Locator}
    {current : Option CellAddress} :
    index.locate (r.update u) locator current = index.locate r locator current := by
  rw [Report.update_eq_change, locate_change h]

/-- A locator means the same cell as before. -/
theorem resolve_update (h : r.WellFormed) {index : ReportIndex} {locator : Locator}
    {current : Option CellAddress} :
    index.resolve (r.update u) locator current =
      (index.resolve r locator current).map (Resolved.update u) := by
  rw [Report.update_eq_change, resolve_change h]
  exact congrArg (Except.map · _) (funext fun target => target.update_eq_change.symm)

/-- What the locator means in the updated report it means in the report. -/
theorem exists_resolve_of_update (h : r.WellFormed) {locator : Locator}
    {current : Option CellAddress} {target : Resolved}
    (htarget : (build (r.update u)).resolve (r.update u) locator current = .ok target) :
    ∃ original, (build r).resolve r locator current = .ok original ∧
      target = original.update u := by
  rw [build_update, resolve_update h] at htarget
  cases horiginal : (build r).resolve r locator current with
  | error e =>
    rw [horiginal] at htarget
    cases htarget
  | ok original =>
    rw [horiginal] at htarget
    cases htarget
    exact ⟨original, rfl, rfl⟩

end ReportIndex

/-! ## Clearing -/

/-- Clearing the values of the inputs at some addresses. -/
def InputUpdate.clearing (time : DateTime) (cleared : List CellAddress) : InputUpdate where
  apply a c := if a ∈ cleared then c.clearValue disabledReason time else c
  id_apply a c := by split <;> rfl
  span_apply a c := by split <;> rfl
  kind_apply a c := by split <;> rfl
  rules_apply a c := by split <;> rfl

section Clearing
variable {time : DateTime} {cleared : List CellAddress} {a : CellAddress}

theorem InputUpdate.clearing_of_mem (h : a ∈ cleared) (c : InputCell) :
    (clearing time cleared).apply a c = c.clearValue disabledReason time := if_pos h

theorem InputUpdate.clearing_of_not_mem (h : a ∉ cleared) (c : InputCell) :
    (clearing time cleared).apply a c = c := if_neg h

end Clearing

namespace Report

variable {r : Report} {time : DateTime}

@[simp] theorem update_clearing_nil : r.update (.clearing time []) = r :=
  update_eq_self fun _ c => InputUpdate.clearing_of_not_mem List.not_mem_nil c

/-- The id of the cell at an address, as messages show it. -/
def labelAt (r : Report) (a : CellAddress) : String := (r.cellAt? a).elim "" Cell.label

theorem labelAt_update (h : r.WellFormed) (a : CellAddress) :
    (r.update u).labelAt a = r.labelAt a := by
  rw [labelAt, labelAt, cellAt?_update h]
  cases r.cellAt? a <;> simp

/-- Writing to an input through a focus is an update of that input only. -/
theorem replace_focus?_eq_update (h : r.WellFormed) {a : CellAddress} {focus : Focus Report Cell}
    (hfocus : r.focus? a = some focus) {c : InputCell} (hpart : focus.part = .input c)
    (hu : ∀ b c, b ≠ a → u.apply b c = c) :
    focus.replace (.input (u.apply a c)) = r.update u := by
  have hslotted : focus.part.slotted? = none := by
    rw [hpart]
    rfl
  have written := replace_focus?_eq_change h hfocus hslotted fun b d hb =>
    InputUpdate.change_apply_eq_self (fun c => hu b c hb) d
  rw [hpart] at written
  exact written.trans update_eq_change.symm

theorem clearInput_eq (h : r.WellFormed) {a : CellAddress} {c : InputCell}
    (hc : r.cellAt? a = some (.input c)) :
    r.clearInput time a = (r.update (.clearing time [a]), [r.labelAt a]) := by
  obtain ⟨focus, hfocus, hpart⟩ := Option.map_eq_some_iff.1 (map_part_focus?.trans hc)
  have outside (b : CellAddress) (d : InputCell) (hb : b ≠ a) :
      (InputUpdate.clearing time [a]).apply b d = d :=
    InputUpdate.clearing_of_not_mem (by simpa using hb) d
  have written := replace_focus?_eq_update h hfocus hpart outside
  rw [InputUpdate.clearing_of_mem (List.mem_singleton_self a)] at written
  obtain ⟨part, replace⟩ := focus
  cases (hpart : part = .input c)
  simp only [clearInput, hfocus, labelAt, hc, Option.elim_some]
  rw [← written]

/-- Clearing inputs one after the other is one update, and gives their labels. -/
theorem clearInputs_eq (h : r.WellFormed) {cleared : List CellAddress} (hnodup : cleared.Nodup)
    (hinputs : ∀ a ∈ cleared, ∃ c, r.cellAt? a = some (.input c)) :
    r.clearInputs time cleared =
      (r.update (.clearing time cleared), cleared.map r.labelAt) := by
  induction cleared generalizing r with
  | nil =>
    rw [update_clearing_nil]
    rfl
  | cons a rest ih =>
    obtain ⟨hrest, hnodup⟩ := List.nodup_cons.1 hnodup
    obtain ⟨c, hc⟩ := hinputs a (List.mem_cons_self ..)
    have later : ∀ b ∈ rest, ∃ c, (r.update (.clearing time [a])).cellAt? b = some (.input c) := by
      intro b hb
      obtain ⟨d, hd⟩ := hinputs b (List.mem_cons_of_mem _ hb)
      exact ⟨_, by rw [cellAt?_update h, hd]; rfl⟩
    have both (b : CellAddress) (d : InputCell) :
        (InputUpdate.clearing time rest).apply b ((InputUpdate.clearing time [a]).apply b d) =
          (InputUpdate.clearing time (a :: rest)).apply b d := by
      by_cases hb : b = a
      · subst hb
        simp [InputUpdate.clearing, hrest]
      · simp [InputUpdate.clearing, hb]
    have labels : rest.map (r.update (.clearing time [a])).labelAt = rest.map r.labelAt :=
      List.map_congr_left fun b _ => labelAt_update h b
    simp only [clearInputs, clearInput_eq h hc, ih h.update hnodup later, update_update both,
      labels, List.map_cons, List.singleton_append]

end Report

/-! ## Setting -/

/-- Setting the input at an address to a value. -/
def InputUpdate.setting (time : DateTime) (a : CellAddress) (value : Option Value) :
    InputUpdate where
  apply b c := if b = a then { c with value, inputs := c.inputs.push ⟨time, .applied value⟩ } else c
  id_apply b c := by split <;> rfl
  span_apply b c := by split <;> rfl
  kind_apply b c := by split <;> rfl
  rules_apply b c := by split <;> rfl

/-- Giving the input at an address another value and another log. -/
def InputUpdate.holding (a : CellAddress) (value : Option Value) (inputs : EventLog InputChange) :
    InputUpdate where
  apply b c := if b = a then { c with value, inputs } else c
  id_apply b c := by split <;> rfl
  span_apply b c := by split <;> rfl
  kind_apply b c := by split <;> rfl
  rules_apply b c := by split <;> rfl

/-- Writing an input back with another value and another log is that update. -/
theorem Report.eq_update_of_writeCell? {r r' : Report} (h : r.WellFormed) {a : CellAddress}
    {c : InputCell} {value : Option Value} {inputs : EventLog InputChange}
    (hc : r.cellAt? a = some (.input c))
    (hwrite : r.writeCell? a (.input { c with value, inputs }) = some r') :
    r' = r.update (.holding a value inputs) := by
  have written : (InputUpdate.holding a value inputs).change.apply a (.input c) =
      .input { c with value, inputs } := congrArg Cell.input (if_pos rfl)
  rw [update_eq_change]
  refine eq_change_of_writeCell? h hc rfl (fun b d hb => ?_) (written.symm ▸ hwrite)
  exact InputUpdate.change_apply_eq_self (fun _ => if_neg hb) d

/-- Giving an input the value and the log that it has changes nothing. -/
theorem Report.update_holding_self {r : Report} (h : r.WellFormed) {a : CellAddress} {c : InputCell}
    (hc : r.cellAt? a = some (.input c)) : r.update (.holding a c.value c.inputs) = r := by
  obtain ⟨focus, hfocus, hpart⟩ := Option.map_eq_some_iff.1 (map_part_focus?.trans hc)
  have hwrite : r.writeCell? a (.input c) = some (focus.replace (.input c)) := by
    rw [writeCell?, hfocus, Option.map_some]
  rw [← eq_update_of_writeCell? h hc hwrite, ← hpart, replace_focus?_part hfocus]

theorem exists_of_bind_eq_ok {ε α β : Type} {x : Except ε α} {f : α → Except ε β} {b : β}
    (h : x >>= f = .ok b) : ∃ a, x = .ok a ∧ f a = .ok b := by
  cases x with
  | ok a => exact ⟨a, rfl, h⟩
  | error e => cases h

namespace Agent

variable {agent agent' : Agent} {locator : Locator} {value : Option Value} {time : DateTime}
  {a : CellAddress}

theorem setInput_of_not_utc (hutc : time.isUtc = false) :
    agent.setInput locator value time = .error (.nonUtcTimestamp time) := by
  unfold setInput DateTime.ensureUtc
  rw [hutc]
  rfl

theorem setInput_of_locate_eq_error (hutc : time.isUtc = true) {e : EvaluationError}
    (hlocate : agent.index.locate agent.report locator none = .error e) :
    agent.setInput locator value time = .error e := by
  unfold setInput DateTime.ensureUtc
  rw [hutc, hlocate]
  rfl

/-- Setting an input at a known place. -/
theorem setInput_of_locate (hutc : time.isUtc = true)
    (hlocate : agent.index.locate agent.report locator none = .ok a) :
    agent.setInput locator value time = match agent.report.focus? a with
      | some focus => match focus.part with
        | .input c => (liftConstruction (c.setValue value time)).map fun c =>
          { agent with report := focus.replace (.input c) }
        | cell => .error (Resolved.mismatch ⟨a, cell⟩ "input")
      | none =>
        .error (.cellNotFound (agent.report.sectionId a.row.sectionIndex) locator.display) := by
  unfold setInput DateTime.ensureUtc
  rw [hutc, hlocate]
  cases hfocus : agent.report.focus? a with
  | none => simp only [if_true, bind, Except.bind, hfocus, throw, throwThe, MonadExceptOf.throw]
  | some focus =>
    simp only [if_true, bind, Except.bind, hfocus]
    cases focus.part with
    | input c => cases c.setValue value time <;> rfl
    | _ => rfl

/-- Setting a known input is an update of this input, unless its kind does not admit the value. -/
theorem setInput_of_input (h : agent.report.WellFormed) (hutc : time.isUtc = true)
    (hlocate : agent.index.locate agent.report locator none = .ok a) {c : InputCell}
    (hc : agent.report.cellAt? a = some (.input c)) :
    agent.setInput locator value time = match c.check value with
      | .ok _ => .ok { agent with report := agent.report.update (.setting time a value) }
      | .error e => .error (.construction e) := by
  obtain ⟨focus, hfocus, hpart⟩ := Option.map_eq_some_iff.1 (Report.map_part_focus?.trans hc)
  have written := Report.replace_focus?_eq_update (u := .setting time a value) h hfocus hpart
    fun b d hb => if_neg hb
  rw [setInput_of_locate hutc hlocate, hfocus, ← written]
  simp only [hpart, InputCell.setValue, InputUpdate.setting, if_true]
  cases c.check value <;> rfl

/-- Setting an input changes the report in this input only. -/
theorem exists_of_setInput (h : agent.report.WellFormed)
    (hset : agent.setInput locator value time = .ok agent') :
    ∃ a c, agent.index.locate agent.report locator none = .ok a ∧
      agent.report.cellAt? a = some (.input c) ∧ c.check value = .ok () ∧
        agent' = { agent with report := agent.report.update (.setting time a value) } := by
  cases hutc : time.isUtc with
  | false => cases (setInput_of_not_utc hutc).symm.trans hset
  | true =>
    cases hlocate : agent.index.locate agent.report locator none with
    | error e => cases (setInput_of_locate_eq_error hutc hlocate).symm.trans hset
    | ok a =>
      have hfocused := (setInput_of_locate hutc hlocate).symm.trans hset
      split at hfocused
      · split at hfocused
        · next hfocus _ c hpart =>
          have hcell : agent.report.cellAt? a = some (.input c) := by
            rw [← Report.map_part_focus?, hfocus, Option.map_some, hpart]
          rw [setInput_of_input h hutc hlocate hcell] at hset
          split at hset
          · next hcheck =>
            cases hset
            exact ⟨a, c, rfl, hcell, hcheck, rfl⟩
          · cases hset
        · cases hfocused
      · cases hfocused

end Agent

end ReportCalc
