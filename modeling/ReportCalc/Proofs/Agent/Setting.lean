import ReportCalc.Proofs.Agent.Addressing

/-!
# Setting inputs

Setting an input either does all that it should or nothing (`Agent.setInput_exact`). The first
condition that is not met decides with which error it fails (`Agent.Sets`), and when it succeeds,
the one input holds the value and has logged one more event, while everything else is as before
(`Agent.SetsOnly`). An agent that is changed in place, in several steps, ends up the same
(`Agent.assign_run`).
-/

namespace ReportCalc

variable {value : Option Value} {time : DateTime}

/-! ## Setting in place -/

section InPlace
variable {ε σ α β : Type} {s : σ}

theorem run_get_bind (f : σ → ExceptT ε (StateM σ) α) :
    (get >>= f).run.run s = (f s).run.run s := rfl

theorem run_ofExcept_bind (x : Except ε α) (f : α → ExceptT ε (StateM σ) β) :
    (MonadExcept.ofExcept x >>= f).run.run s = match x with
      | .ok a => (f a).run.run s
      | .error e => (.error e, s) := by
  cases x <;> rfl

end InPlace

/-- Sets the value of an input cell in place. Changes that have been made stay, whatever fails
later. -/
def InputCell.assign (value : Option Value) (time : DateTime) :
    ExceptT ConstructionError (StateM InputCell) Unit := do
  MonadExcept.ofExcept ((← get).check value)
  modify fun c => { c with value }
  modify fun c => { c with inputs := c.inputs.push ⟨time, .applied value⟩ }

/-- Sets the value of an input of the agent in place. What setting the cell leaves of it is in the
report, also when it has failed. -/
def Agent.assign (locator : Locator) (value : Option Value) (time : DateTime) :
    ExceptT EvaluationError (StateM Agent) Unit := do
  MonadExcept.ofExcept time.ensureUtc
  let agent ← get
  let a ← MonadExcept.ofExcept (agent.index.locate agent.report locator none)
  let some focus := agent.report.focus? a
    | throw (.cellNotFound (agent.report.sectionId a.row.sectionIndex) locator.display)
  match focus.part with
  | .input c =>
    let (result, c) := (InputCell.assign value time).run.run c
    set { agent with report := focus.replace (.input c) }
    MonadExcept.ofExcept (liftConstruction result)
  | cell => throw (Resolved.mismatch ⟨a, cell⟩ "input")

/-- Nothing of the cell is changed before the value has been checked. -/
theorem InputCell.assign_run (c : InputCell) :
    (assign value time).run.run c =
      ((c.setValue value time).map fun _ => (), (c.setValue value time).toOption.getD c) := by
  unfold assign setValue
  rw [run_get_bind, run_ofExcept_bind]
  cases c.check value <;> rfl

namespace Agent

variable {agent agent' : Agent} {locator : Locator} {a : CellAddress}

/-- There is a cell to write to wherever an absolute locator leads. -/
theorem exists_focus_of_locate (h : agent.report.Sound)
    (hlocate : agent.index.locate agent.report locator none = .ok a) :
    ∃ focus, agent.report.focus? a = some focus ∧ agent.report.cellAt? a = some focus.part := by
  have hcurrent : ∀ b ∈ (none : Option CellAddress), b ∈ agent.report.cells.map Prod.fst := nofun
  obtain ⟨cell, hcell⟩ := h.exists_cellAt?_of_locate hcurrent hlocate
  obtain ⟨focus, hfocus, rfl⟩ := Option.map_eq_some_iff.1 (Report.map_part_focus?.trans hcell)
  exact ⟨focus, hfocus, hcell⟩

/-- Writing an input back as it is changes nothing. -/
theorem replace_focus?_self {focus : Focus Report Cell}
    (hfocus : agent.report.focus? a = some focus) {c : InputCell} (hpart : focus.part = .input c) :
    { agent with report := focus.replace (.input c) } = agent := by
  rw [← hpart, Report.replace_focus?_part hfocus]

/-- What setting an input in place leaves of the agent is the agent with the input set, or the agent
as it was. -/
theorem assign_run (h : agent.report.Sound) :
    (assign locator value time).run.run agent =
      ((agent.setInput locator value time).map fun _ => (),
        (agent.setInput locator value time).toOption.getD agent) := by
  unfold assign DateTime.ensureUtc
  rw [run_ofExcept_bind]
  cases hutc : time.isUtc with
  | false =>
    rw [setInput_of_not_utc hutc]
    rfl
  | true =>
    simp only [if_true, run_get_bind, run_ofExcept_bind]
    cases hlocate : agent.index.locate agent.report locator none with
    | error e =>
      rw [setInput_of_locate_eq_error hutc hlocate]
      rfl
    | ok a =>
      obtain ⟨focus, hfocus, -⟩ := exists_focus_of_locate h hlocate
      rw [setInput_of_locate hutc hlocate, hfocus]
      simp only [hfocus]
      cases hpart : focus.part with
      | input c =>
        -- the cell is put back even when its kind has refused the value, but then it is as it was
        simp only [InputCell.assign_run]
        cases c.setValue value time with
        | ok d => rfl
        | error e => exact congrArg (Prod.mk _) (replace_focus?_self hfocus hpart)
      | _ => rfl

end Agent

/-! ## What is changed -/

/-- The cell with this value, and one more event in its log. -/
def InputCell.applied (c : InputCell) (value : Option Value) (time : DateTime) : InputCell :=
  { c with value, inputs := c.inputs.push ⟨time, .applied value⟩ }

/-- The second agent is the first one with the input at an address set, and with everything else as
it was. The input holds the value and has logged one more event. When it is in a slot, the cell that
the slot belongs to has changed in this slot; all other cells are the same, and so are the rest of
the report and all other logs. Locators mean the same addresses, and those that mean the input show
the value. -/
structure Agent.SetsOnly (agent agent' : Agent) (a : CellAddress) (c : InputCell)
    (value : Option Value) (time : DateTime) : Prop where
  index : agent'.index = agent.index
  config : agent'.config = agent.config
  journal : agent'.journal = agent.journal
  target : agent'.report.cellAt? a = some (.input (c.applied value time))
  container : ∀ slot d, a.slot = some slot →
    agent.report.cellAt? a.container = some (.slotted d) →
      agent'.report.cellAt? a.container = some (.slotted { d with
        slots := Keyed.replace slot (.input (c.applied value time)) d.slots })
  others : ∀ b, b ≠ a → b ≠ a.container → agent'.report.cellAt? b = agent.report.cellAt? b
  rest : agent'.report.withoutInputs = agent.report.withoutInputs
  locate : ∀ locator current, agent'.index.locate agent'.report locator current =
    agent.index.locate agent.report locator current
  read : ∀ locator, agent.index.locate agent.report locator none = .ok a →
    agent'.resolve locator = .ok ⟨a, .input (c.applied value time)⟩ ∧
      agent'.cellValue locator = .ok value

/-- An update of one input changes no cell but this input and the one that its slot belongs to. -/
theorem Report.cellAt?_update_of_ne {r : Report} (h : r.WellFormed) {u : InputUpdate}
    {a b : CellAddress} (hu : ∀ b c, b ≠ a → u.apply b c = c) (hb : b ≠ a)
    (hcontainer : b ≠ a.container) : (r.update u).cellAt? b = r.cellAt? b := by
  have same (cell : Cell) : cell.update u b = cell := by
    rw [Cell.update_eq_change]
    cases hslot : b.slot with
    | none =>
      refine Cell.change_eq_self (fun d cell hd => ?_) hslot
      refine InputUpdate.change_apply_eq_self (fun c => hu d c ?_) cell
      rintro rfl
      exact hcontainer hd.symm
    | some slot =>
      rw [Cell.change_of_slot hslot]
      exact InputUpdate.change_apply_eq_self (fun c => hu b c hb) cell
  rw [cellAt?_update h, funext same, Option.map_id']

/-- The cell that a slot belongs to changes in this slot only. -/
theorem Report.cellAt?_update_container {r : Report} (h : r.WellFormed) {u : InputUpdate}
    {a : CellAddress} (hu : ∀ b c, b ≠ a → u.apply b c = c) {c : InputCell}
    (hc : r.cellAt? a = some (.input c)) {slot : String} (hslot : a.slot = some slot)
    {d : SlottedCell Cell} (hd : r.cellAt? a.container = some (.slotted d)) :
    (r.update u).cellAt? a.container = some (.slotted { d with
      slots := Keyed.replace slot (.input (u.apply a c)) d.slots }) := by
  have ha : a.container.withSlot slot = a := by
    obtain ⟨row, index, _⟩ := a
    cases hslot
    rfl
  have hlookup : d.slots.lookup slot = some (.input c) := by
    rw [cellAt?_eq_bind, hd, hslot] at hc
    exact hc
  have hkeys : (d.slots.map Prod.fst).Nodup :=
    Keyed.Sorted.nodup (h _ ((mem_cells_iff h).2 hd))
  have slots := Keyed.replace_eq_map
    (f := fun slot inner => inner.updateInput u (a.container.withSlot slot)) hkeys hlookup
    fun other inner hother => ?_
  · simp only [ha, Cell.updateInput] at slots
    rw [cellAt?_update h, hd, Option.map_some, slots]
    rfl
  · cases inner with
    | input e =>
      refine congrArg Cell.input (hu _ e fun heq => hother ?_)
      exact Option.some.inj (congrArg CellAddress.slot (heq.trans ha.symm))
    | _ => rfl

namespace Agent

variable {agent agent' : Agent} {locator : Locator} {a : CellAddress}

theorem setsOnly_update (h : agent.report.WellFormed) {c : InputCell}
    (hc : agent.report.cellAt? a = some (.input c)) :
    SetsOnly agent { agent with report := agent.report.update (.setting time a value) } a c
      value time := by
  have outside (b : CellAddress) (d : InputCell) (hb : b ≠ a) :
      (InputUpdate.setting time a value).apply b d = d := if_neg hb
  have applied : (InputUpdate.setting time a value).apply a c = c.applied value time := if_pos rfl
  have target : (agent.report.update (.setting time a value)).cellAt? a =
      some (.input (c.applied value time)) := by
    rw [Report.cellAt?_update_input h hc, applied]
  have same (locator : Locator) (current : Option CellAddress) :
      agent.index.locate (agent.report.update (.setting time a value)) locator current =
        agent.index.locate agent.report locator current := ReportIndex.locate_update h
  refine ⟨rfl, rfl, rfl, target, fun slot d hslot hd => ?_,
    fun b => Report.cellAt?_update_of_ne h outside, Report.withoutInputs_update, same,
    fun locator hlocate => ?_⟩
  · rw [Report.cellAt?_update_container h outside hc hslot hd, applied]
  · have hresolve := ReportIndex.resolve_eq_of_locate ((same locator none).trans hlocate) target
    refine ⟨hresolve, ?_⟩
    unfold cellValue resolve
    rw [hresolve]
    rfl

/-! ## What setting comes to -/

/-- What setting an input comes to: the first condition that is not met decides the error, and when
all are met, the input is set. -/
inductive Sets (agent : Agent) (locator : Locator) (value : Option Value) (time : DateTime) :
    Except EvaluationError Agent → Prop
  | nonUtcTimestamp (hutc : time.isUtc = false) :
      Sets agent locator value time (.error (.nonUtcTimestamp time))
  | notLocated {e} (hutc : time.isUtc = true)
      (hlocate : agent.index.locate agent.report locator none = .error e) :
      Sets agent locator value time (.error e)
  | notInput {a cell} (hutc : time.isUtc = true)
      (hlocate : agent.index.locate agent.report locator none = .ok a)
      (hcell : agent.report.cellAt? a = some cell) (hinput : cell.input? = none) :
      Sets agent locator value time (.error (.cellKindMismatch cell.label "input" cell.sortName))
  | notAdmitted {a c v} (hutc : time.isUtc = true)
      (hlocate : agent.index.locate agent.report locator none = .ok a)
      (hcell : agent.report.cellAt? a = some (.input c)) (hvalue : value = some v)
      (hkind : c.kind.admits v = false) :
      Sets agent locator value time (.error (.construction (.kindMismatch c.kind v.typeName)))
  | set {a c agent'} (hutc : time.isUtc = true)
      (hlocate : agent.index.locate agent.report locator none = .ok a)
      (hcell : agent.report.cellAt? a = some (.input c))
      (hkind : ∀ v ∈ value, c.kind.admits v = true)
      (honly : agent.SetsOnly agent' a c value time) :
      Sets agent locator value time (.ok agent')

theorem sets_setInput (h : agent.report.Sound) (locator : Locator) (value : Option Value)
    (time : DateTime) : agent.Sets locator value time (agent.setInput locator value time) := by
  cases hutc : time.isUtc with
  | false =>
    rw [setInput_of_not_utc hutc]
    exact .nonUtcTimestamp hutc
  | true =>
    cases hlocate : agent.index.locate agent.report locator none with
    | error e =>
      rw [setInput_of_locate_eq_error hutc hlocate]
      exact .notLocated hutc hlocate
    | ok a =>
      obtain ⟨focus, hfocus, hcell⟩ := exists_focus_of_locate h hlocate
      cases hpart : focus.part with
      | input c =>
        rw [hpart] at hcell
        rw [setInput_of_input h.wellFormed hutc hlocate hcell]
        have honly : agent.SetsOnly
            { agent with report := agent.report.update (.setting time a value) } a c value time :=
          setsOnly_update h.wellFormed hcell
        cases value with
        | none => exact .set hutc hlocate hcell nofun honly
        | some v =>
          cases hkind : c.kind.admits v with
          | true =>
            rw [InputCell.check, if_pos hkind]
            exact .set hutc hlocate hcell (by simpa using hkind) honly
          | false =>
            rw [InputCell.check, if_neg (by simp [hkind])]
            exact .notAdmitted hutc hlocate hcell rfl hkind
      | _ =>
        rw [setInput_of_locate hutc hlocate, hfocus]
        simp only [hpart]
        exact .notInput hutc hlocate (hpart ▸ hcell) rfl

/-! ## Setting two inputs -/

theorem setInput_eq_ok_iff (h : agent.report.WellFormed)
    (hlocate : agent.index.locate agent.report locator none = .ok a) :
    agent.setInput locator value time = .ok agent' ↔
      time.isUtc = true ∧
        (∃ c, agent.report.cellAt? a = some (.input c) ∧ c.check value = .ok ()) ∧
          agent' = { agent with report := agent.report.update (.setting time a value) } := by
  constructor
  · intro hset
    obtain ⟨b, c, hb, hc, hcheck, hagent⟩ := exists_of_setInput h hset
    cases hlocate.symm.trans hb
    cases hutc : time.isUtc with
    | false => cases (setInput_of_not_utc hutc).symm.trans hset
    | true => exact ⟨rfl, ⟨c, hc, hcheck⟩, hagent⟩
  · rintro ⟨hutc, ⟨c, hc, hcheck⟩, rfl⟩
    rw [setInput_of_input h hutc hlocate hc, hcheck]

/-- An update makes no difference to whether an input can be set. -/
theorem setInput_update_eq_ok_iff (h : agent.report.WellFormed)
    (hlocate : agent.index.locate agent.report locator none = .ok a) {u : InputUpdate} :
    { agent with report := agent.report.update u }.setInput locator value time = .ok agent' ↔
      time.isUtc = true ∧
        (∃ c, agent.report.cellAt? a = some (.input c) ∧ c.check value = .ok ()) ∧
          agent' = { agent with
            report := (agent.report.update u).update (.setting time a value) } := by
  have check (c : InputCell) : (u.apply a c).check value = c.check value := by
    unfold InputCell.check
    rw [u.kind_apply]
  rw [setInput_eq_ok_iff h.update ((ReportIndex.locate_update h).trans hlocate)]
  refine and_congr_right fun _ => and_congr_left fun _ => ⟨?_, ?_⟩
  · rintro ⟨d, hd, hcheck⟩
    obtain ⟨c, hc, rfl⟩ := Report.exists_input_of_update h hd
    exact ⟨c, hc, (check c).symm.trans hcheck⟩
  · rintro ⟨c, hc, hcheck⟩
    exact ⟨u.apply a c, Report.cellAt?_update_input h hc, (check c).trans hcheck⟩

section Two
variable {l₁ l₂ : Locator} {b : CellAddress} {v₁ v₂ : Option Value} {t₁ t₂ : DateTime}
  {done : Agent}

/-- One input can be set after the other when each of them can be set. -/
theorem setInput_bind_eq_ok_iff (h : agent.report.WellFormed)
    (ha : agent.index.locate agent.report l₁ none = .ok a)
    (hb : agent.index.locate agent.report l₂ none = .ok b) :
    (agent.setInput l₁ v₁ t₁ >>= fun x => x.setInput l₂ v₂ t₂) = .ok done ↔
      (∃ x, agent.setInput l₁ v₁ t₁ = .ok x) ∧ (∃ y, agent.setInput l₂ v₂ t₂ = .ok y) ∧
        done = { agent with
          report := (agent.report.update (.setting t₁ a v₁)).update (.setting t₂ b v₂) } := by
  constructor
  · intro hset
    obtain ⟨x, hx, hset⟩ := exists_of_bind_eq_ok hset
    obtain ⟨-, -, rfl⟩ := (setInput_eq_ok_iff h ha).1 hx
    obtain ⟨hutc, hinput, rfl⟩ := (setInput_update_eq_ok_iff h hb).1 hset
    exact ⟨⟨_, hx⟩, ⟨_, (setInput_eq_ok_iff h hb).2 ⟨hutc, hinput, rfl⟩⟩, rfl⟩
  · rintro ⟨⟨x, hx⟩, ⟨y, hy⟩, rfl⟩
    rw [hx]
    obtain ⟨-, -, rfl⟩ := (setInput_eq_ok_iff h ha).1 hx
    obtain ⟨hutc, hinput, -⟩ := (setInput_eq_ok_iff h hb).1 hy
    exact (setInput_update_eq_ok_iff h hb).2 ⟨hutc, hinput, rfl⟩

theorem update_setting_comm {r : Report} (hne : a ≠ b) :
    (r.update (.setting t₁ a v₁)).update (.setting t₂ b v₂) =
      (r.update (.setting t₂ b v₂)).update (.setting t₁ a v₁) := by
  rw [Report.update_update (w := .followedBy (.setting t₁ a v₁) (.setting t₂ b v₂)) fun _ _ => rfl]
  refine (Report.update_update fun d c => ?_).symm
  by_cases hd : d = a
  · subst hd
    simp [InputUpdate.setting, InputUpdate.followedBy, hne]
  · simp [InputUpdate.setting, InputUpdate.followedBy, hd]

/-- Inputs at different places can be set in either order. -/
theorem setInput_comm (h : agent.report.WellFormed)
    (ha : agent.index.locate agent.report l₁ none = .ok a)
    (hb : agent.index.locate agent.report l₂ none = .ok b) (hne : a ≠ b) :
    (agent.setInput l₁ v₁ t₁ >>= fun x => x.setInput l₂ v₂ t₂) = .ok done ↔
      (agent.setInput l₂ v₂ t₂ >>= fun y => y.setInput l₁ v₁ t₁) = .ok done := by
  rw [setInput_bind_eq_ok_iff h ha hb, setInput_bind_eq_ok_iff h hb ha, update_setting_comm hne,
    and_left_comm]

end Two

end Agent

namespace Nested

/-- An agent of the report. -/
def agent : Agent := .ofReport report .default

/-- The first slot through its container, and the second by its own id. -/
def day : Locator := .inReport "travel" "rate" ⟨some "day", .required⟩

def night : Locator := .inReport "travel" "nightRate" .none

end Nested

end ReportCalc
