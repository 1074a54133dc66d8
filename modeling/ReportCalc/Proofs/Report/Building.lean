import ReportCalc.Proofs.Report.Typing

/-!
# Building cells and reports

Cells are made with a few constructors and changed with builders (`Cell.Built`), of which some
refuse what they are given. A slotted cell is made of slots that fit (`SlottedCell.make_eq_ok_iff`).
So the slots of every cell that is built are in order of their ids, hold no slotted cells and have
the default slot among them (`Cell.Built.sound`), and an input that is built holds a value of its
kind, if it holds one (`Cell.Built.holdsOfKind`). A report is made of sections in which no id occurs
twice in its category (`Report.make_eq_ok_iff`).
-/

namespace ReportCalc

/-- Cells that are made with the constructors and the builders. -/
inductive Cell.Built : Cell → Prop
  | ofValue (value : Value) : Built (.ofValue value)
  | ofInput (kind : Kind) : Built (.ofInput kind)
  | ofOperation (op : Operation) : Built (.ofOperation op)
  | ofSpan (span : UInt64) : Built (.ofSpan span)
  | slotted {id : String} {span : UInt64} {slots : List (String × Cell)} {defaultSlot : String}
      {c : SlottedCell Cell} (hslots : ∀ slot ∈ slots, Built slot.2)
      (hmake : SlottedCell.make id span slots defaultSlot = .ok c) : Built (.slotted c)
  | constValue {c : ConstCell} (value : Value) (h : Built (.const c)) :
      Built (.const (c.withValue value))
  | inputValue {c d : InputCell} {value : Option Value} (h : Built (.input c))
      (hvalue : c.withValue value = .ok d) : Built (.input d)
  | withOperation {c : OperationCell} (op : Operation) (h : Built (.operation c)) :
      Built (.operation (c.withOperation op))
  | withId {cell : Cell} (id : String) (h : Built cell) : Built (cell.withId id)
  | withSpan {cell : Cell} (span : UInt64) (h : Built cell) : Built (cell.withSpan span)
  | withValidation {cell : Cell} (chain : ValidationRule) (h : Built cell) :
      Built (cell.withValidation chain)
  | withAvailability {cell : Cell} (chain : AvailabilityRule) (h : Built cell) :
      Built (cell.withAvailability chain)

/-- All cells of the report are built. -/
def Report.Built (r : Report) : Prop := ∀ entry ∈ r.cells, entry.2.Built

/-! ## Slotted cells -/

/-- What the construction of slotted cells makes sure of: the slots are in order of their ids, hold
no slotted cells, and the default slot is one of them. -/
structure SlottedCell.Sound (c : SlottedCell Cell) : Prop where
  sorted : Keyed.Sorted c.slots
  flat : ∀ slot ∈ c.slots, slot.2.slotted? = none
  default : c.defaultCell?.isSome = true

/-- The cell is sound, if it is slotted. -/
def Cell.Sound (cell : Cell) : Prop := ∀ c, cell.slotted? = some c → c.Sound

/-- All slotted cells of the report are sound. -/
def Report.Sound (r : Report) : Prop := ∀ entry ∈ r.cells, entry.2.Sound

/-- A check of all elements succeeds when the check of each does. -/
theorem forM_eq_ok_iff {ε α : Type} {f : α → Except ε Unit} {xs : List α} :
    xs.forM f = .ok () ↔ ∀ x ∈ xs, f x = .ok () := by
  induction xs with
  | nil => exact iff_of_true rfl (List.forall_mem_nil _)
  | cons x rest ih =>
    rw [List.forall_mem_cons, ← ih]
    constructor
    · intro h
      obtain ⟨_, hx, hrest⟩ := exists_of_bind_eq_ok h
      exact ⟨hx, hrest⟩
    · rintro ⟨hx, hrest⟩
      exact (congrArg (· >>= fun _ => rest.forM f) hx).trans hrest

/-- A check of all elements fails with the error of the first element that does not pass. -/
theorem forM_eq_error_iff {ε α : Type} {f : α → Except ε Unit} {xs : List α} {e : ε} :
    xs.forM f = .error e ↔
      ∃ before x after, xs = before ++ x :: after ∧ (∀ y ∈ before, f y = .ok ()) ∧
        f x = .error e := by
  constructor
  · intro h
    induction xs with
    | nil => cases h
    | cons x rest ih =>
      cases hx : f x with
      | error e' =>
        have hforM : (x :: rest).forM f = .error e' := congrArg (· >>= fun _ => rest.forM f) hx
        cases hforM.symm.trans h
        exact ⟨[], x, rest, rfl, List.forall_mem_nil _, hx⟩
      | ok =>
        have hforM : (x :: rest).forM f = rest.forM f := congrArg (· >>= fun _ => rest.forM f) hx
        obtain ⟨before, y, after, rfl, hbefore, hy⟩ := ih (hforM.symm.trans h)
        exact ⟨x :: before, y, after, rfl, List.forall_mem_cons.2 ⟨hx, hbefore⟩, hy⟩
  · rintro ⟨before, x, after, rfl, hbefore, hx⟩
    induction before with
    | nil => exact congrArg (· >>= fun _ => after.forM f) hx
    | cons y before ih =>
      obtain ⟨hy, hbefore⟩ := List.forall_mem_cons.1 hbefore
      exact (congrArg (· >>= fun _ => (before ++ x :: after).forM f) hy).trans (ih hbefore)

/-- What is made after a check is made when the check succeeds, and refused when it fails. -/
theorem check_eq_ok_iff {ε α : Type} {check : Except ε Unit} {a b : α} :
    (check >>= fun _ => .ok a) = .ok b ↔ b = a ∧ check = .ok () := by
  cases check with
  | ok => exact ⟨fun h => by cases h; exact ⟨rfl, rfl⟩, fun h => congrArg Except.ok h.1.symm⟩
  | error e => exact iff_of_false nofun nofun

theorem check_eq_error_iff {ε α : Type} {check : Except ε Unit} {a : α} {e : ε} :
    (check >>= fun _ => .ok a) = .error e ↔ check = .error e := by
  cases check with
  | ok => exact iff_of_false nofun nofun
  | error e' => exact ⟨fun h => by cases h; rfl, fun h => by cases h; rfl⟩

namespace SlottedCell

/-- What the construction asks of the slots, given their span and the default slot. -/
structure Fits (span : UInt64) (slots : List (String × Cell)) (defaultSlot : String) : Prop where
  nonempty : slots ≠ []
  named : ∀ slot ∈ slots, Text.isBlank slot.1 = false
  flat : ∀ slot ∈ slots, slot.2.slotted? = none
  even : ∀ slot ∈ slots, slot.2.span = span
  default : defaultSlot ∈ slots.map Prod.fst

variable {id slot defaultSlot : String} {span : UInt64} {slots : List (String × Cell)}
  {c : SlottedCell Cell}

theorem checkSlot_eq_ok_iff {cell : Cell} : checkSlot id span slot cell = .ok () ↔
    Text.isBlank slot = false ∧ cell.slotted? = none ∧ cell.span = span := by
  unfold checkSlot
  cases Text.isBlank slot <;> cases cell.slotted? <;> simp [imp_false]

theorem isSome_lookup_iff : (slots.lookup defaultSlot).isSome = true ↔
    defaultSlot ∈ slots.map Prod.fst := by
  rw [← not_iff_not, Option.not_isSome_iff_eq_none, List.lookup_eq_none_iff, List.mem_map]
  constructor
  · rintro h ⟨slot, hslot, rfl⟩
    simpa using h slot hslot
  · intro h slot hslot
    exact bne_iff_ne.2 fun heq => h ⟨slot, hslot, heq.symm⟩

/-- A slotted cell is made when the slots fit, and then it is made of them. -/
theorem make_eq_ok_iff : make id span slots defaultSlot = .ok c ↔
    c = ⟨some id, span, Keyed.ofList slots, defaultSlot⟩ ∧
      Fits span (Keyed.ofList slots) defaultSlot := by
  unfold make
  dsimp only
  generalize Keyed.ofList slots = slots
  have checks : (slots.forM fun slot => checkSlot id span slot.1 slot.2) = .ok () ↔
      ∀ slot ∈ slots, Text.isBlank slot.1 = false ∧ slot.2.slotted? = none ∧ slot.2.span = span :=
    forM_eq_ok_iff.trans (by simp only [checkSlot_eq_ok_iff])
  by_cases hempty : slots = []
  · subst hempty
    exact iff_of_false nofun fun h => h.2.nonempty rfl
  rw [if_neg (by simpa using hempty)]
  have hdefault : (slots.lookup defaultSlot).isSome = true ↔ defaultSlot ∈ slots.map Prod.fst :=
    isSome_lookup_iff
  cases hlookup : slots.lookup defaultSlot with
  | none =>
    rw [hlookup] at hdefault
    refine iff_of_false (fun h => ?_) fun h => Bool.false_ne_true (hdefault.2 h.2.default)
    obtain ⟨_, -, h⟩ := exists_of_bind_eq_ok h
    cases h
  | some cell =>
    rw [hlookup] at hdefault
    refine check_eq_ok_iff.trans (and_congr_right fun _ => checks.trans ⟨fun h => ?_, fun h => ?_⟩)
    · exact ⟨hempty, fun slot hslot => (h slot hslot).1, fun slot hslot => (h slot hslot).2.1,
        fun slot hslot => (h slot hslot).2.2, hdefault.1 rfl⟩
    · exact fun slot hslot => ⟨h.named slot hslot, h.flat slot hslot, h.even slot hslot⟩

/-- Slotted cells are sound by construction. -/
theorem sound_of_make (h : make id span slots defaultSlot = .ok c) : c.Sound := by
  obtain ⟨rfl, hfits⟩ := make_eq_ok_iff.1 h
  exact ⟨Keyed.sorted_ofList slots, hfits.flat, isSome_lookup_iff.2 hfits.default⟩

end SlottedCell

/-- Slotted cells stay sound when the cells in their slots are changed, as long as these do not
become slotted. -/
theorem SlottedCell.Sound.map {c : SlottedCell Cell} (h : c.Sound) {f : String → Cell → Cell}
    (hf : ∀ slot cell, cell.slotted? = none → (f slot cell).slotted? = none) (id : Option String)
    (span : UInt64) : SlottedCell.Sound ⟨id, span,
      c.slots.map fun (slot, cell) => (slot, f slot cell), c.defaultSlot⟩ where
  sorted := by
    rw [Keyed.Sorted, List.map_map]
    exact h.sorted
  flat := List.forall_mem_map.2 fun slot hslot => hf _ _ (h.flat slot hslot)
  default := by
    rw [defaultCell?, slot?, Keyed.lookup_map, Option.isSome_map]
    exact h.default

namespace Cell

variable {cell : Cell}

/-! ## Changing cells -/

theorem withSpanSlots_eq_map (span : UInt64) (slots : List (String × Cell)) :
    withSpanSlots span slots = slots.map fun (slot, cell) => (slot, cell.withSpan span) := by
  induction slots with
  | nil => rfl
  | cons slot rest ih => simp only [withSpanSlots, List.map_cons, ih]

theorem slotted?_withSpan (span : UInt64) (h : cell.slotted? = none) :
    (cell.withSpan span).slotted? = none := by
  cases cell <;> first | rfl | cases h

theorem Sound.wellFormed (h : cell.Sound) : cell.WellFormed := by
  cases cell with
  | slotted c => exact (h c rfl).sorted
  | _ => trivial

theorem sound_of_slotted?_eq_none (h : cell.slotted? = none) : cell.Sound := by
  intro c hc
  cases h.symm.trans hc

theorem Sound.withId (h : cell.Sound) (id : String) : (cell.withId id).Sound := by
  rintro d hd
  cases cell <;> cases hd
  next c => exact ⟨(h c rfl).sorted, (h c rfl).flat, (h c rfl).default⟩

theorem Sound.withSpan (h : cell.Sound) (span : UInt64) : (cell.withSpan span).Sound := by
  rintro d hd
  cases cell <;> cases hd
  next c =>
    rw [withSpanSlots_eq_map]
    exact (h c rfl).map (fun _ _ => slotted?_withSpan span) _ _

theorem Sound.mapRules (h : cell.Sound) (f : CellRules → CellRules) : (cell.mapRules f).Sound := by
  cases cell <;> exact h

theorem Sound.change (h : cell.Sound) (u : CellChange) (a : CellAddress) :
    (cell.change u a).Sound := by
  rcases cell.exists_slotted_or with ⟨c, rfl⟩ | hcell
  · cases hslot : a.slot with
    | none =>
      rw [change_slotted hslot]
      rintro _ ⟨⟩
      exact (h c rfl).map (fun slot cell hcell =>
        (u.slotted?_apply (a.withSlot slot) cell).trans hcell) _ _
    | some slot =>
      rw [change_of_slot hslot, apply_slotted]
      exact h
  · rw [change_of_slotted?_eq_none hcell]
    exact sound_of_slotted?_eq_none ((u.slotted?_apply a cell).trans hcell)

/-- The kind that the cell declares for its value and the value, if it is an input. -/
def held? (cell : Cell) : Option (Kind × Option Value) :=
  cell.input?.map fun c => (c.kind, c.value)

theorem held?_withId (id : String) : (cell.withId id).held? = cell.held? := by cases cell <;> rfl

theorem held?_withSpan (span : UInt64) : (cell.withSpan span).held? = cell.held? := by
  cases cell <;> rfl

theorem held?_mapRules (f : CellRules → CellRules) : (cell.mapRules f).held? = cell.held? := by
  cases cell <;> rfl

/-- The cell, if it is an input, holds a value of its kind, if it holds one. -/
def HoldsOfKind (cell : Cell) : Prop := ∀ c, cell.input? = some c → c.Conforms

theorem HoldsOfKind.congr {d : Cell} (h : cell.HoldsOfKind) (hd : d.held? = cell.held?) :
    d.HoldsOfKind := by
  intro e he
  have hheld : cell.held? = some (e.kind, e.value) := by
    rw [← hd, held?, he]
    rfl
  obtain ⟨c, hc, hce⟩ := Option.map_eq_some_iff.1 hheld
  obtain ⟨hkind, hvalue⟩ := Prod.mk.inj hce
  have hconforms := h c hc
  unfold InputCell.Conforms InputCell.check at hconforms ⊢
  rwa [← hkind, ← hvalue]

namespace Built

/-! ## What is known of built cells -/

theorem sound (h : cell.Built) : cell.Sound := by
  induction h with
  | slotted _ hmake =>
    rintro _ ⟨⟩
    exact SlottedCell.sound_of_make hmake
  | withId id _ ih => exact ih.withId id
  | withSpan span _ ih => exact ih.withSpan span
  | withValidation _ _ ih => exact ih.mapRules _
  | withAvailability _ _ ih => exact ih.mapRules _
  | _ => exact sound_of_slotted?_eq_none rfl

theorem holdsOfKind (h : cell.Built) : cell.HoldsOfKind := by
  induction h with
  | ofInput kind =>
    rintro _ ⟨⟩
    rfl
  | inputValue _ hvalue _ =>
    rintro _ ⟨⟩
    obtain ⟨_, hcheck, hd⟩ := exists_of_bind_eq_ok hvalue
    cases hd
    exact hcheck
  | withId id _ ih => exact ih.congr (held?_withId id)
  | withSpan span _ ih => exact ih.congr (held?_withSpan span)
  | withValidation _ _ ih | withAvailability _ _ ih => exact ih.congr (held?_mapRules _)
  | _ => rintro _ ⟨⟩

end Built

end Cell

theorem Report.Sound.wellFormed {r : Report} (h : r.Sound) : r.WellFormed :=
  fun entry hentry => (h entry hentry).wellFormed

theorem Report.Sound.update {r : Report} (h : r.Sound) (u : InputUpdate) : (r.update u).Sound := by
  intro entry hentry
  rw [update_eq_change, cells_change] at hentry
  obtain ⟨⟨a, c⟩, hmem, rfl⟩ := List.mem_map.1 hentry
  exact (h _ hmem).change u.change a

namespace Report.Built

variable {r : Report}

theorem sound (h : r.Built) : r.Sound := fun entry hentry => (h entry hentry).sound

theorem wellFormed (h : r.Built) : r.WellFormed := h.sound.wellFormed

theorem inputsConform (h : r.Built) : r.InputsConform := by
  intro a c hc
  exact (h _ ((mem_cells_iff h.wellFormed).2 hc)).holdsOfKind c rfl

end Report.Built

/-! ## Unique ids -/

namespace Report

theorem repeatedAfter?_eq_none_iff {seen ids : List String} :
    repeatedAfter? seen ids = none ↔ ids.Nodup ∧ ∀ id ∈ ids, id ∉ seen := by
  induction ids generalizing seen with
  | nil => simp [repeatedAfter?]
  | cons id rest ih =>
    rw [repeatedAfter?, List.nodup_cons, List.forall_mem_cons]
    by_cases hseen : id ∈ seen
    · simp [hseen]
    · rw [if_neg hseen, ih]
      constructor
      · rintro ⟨hrest, hfresh⟩
        refine ⟨⟨fun hid => hfresh id hid (List.mem_cons_self ..), hrest⟩, hseen, ?_⟩
        exact fun x hx hmem => hfresh x hx (List.mem_cons_of_mem _ hmem)
      · rintro ⟨⟨hid, hrest⟩, -, hfresh⟩
        refine ⟨hrest, fun x hx hmem => ?_⟩
        rcases List.mem_cons.1 hmem with rfl | hmem
        · exact hid hx
        · exact hfresh x hx hmem

theorem repeatedAfter?_nil_eq_none_iff {ids : List String} :
    repeatedAfter? [] ids = none ↔ ids.Nodup := by
  rw [repeatedAfter?_eq_none_iff]
  exact and_iff_left fun _ _ => List.not_mem_nil

theorem checkUnique_eq_ok_iff {category : IdCategory} {ids : List String} :
    checkUnique category ids = .ok () ↔ ids.Nodup := by
  rw [← repeatedAfter?_nil_eq_none_iff, checkUnique]
  cases repeatedAfter? [] ids <;> simp

theorem make_of_ne_nil {id : String} {sections : List Section} (h : sections ≠ []) :
    make id sections =
      ([IdCategory.section, .column, .row, .cell].forM fun category =>
        checkUnique category ((⟨id, sections⟩ : Report).ids category)) >>= fun _ =>
          .ok ⟨id, sections⟩ :=
  if_neg (by simpa using h)

/-- A report has at least one section, and no id occurs twice in its category. -/
theorem make_eq_ok_iff {id : String} {sections : List Section} {r : Report} :
    make id sections = .ok r ↔
      r = ⟨id, sections⟩ ∧ sections ≠ [] ∧ ∀ category, (r.ids category).Nodup := by
  have unique {r : Report} : ([IdCategory.section, .column, .row, .cell].forM fun category =>
      checkUnique category (r.ids category)) = .ok () ↔ ∀ category, (r.ids category).Nodup := by
    simp only [forM_eq_ok_iff, checkUnique_eq_ok_iff]
    constructor
    · exact fun h category => h category (by cases category <;> decide)
    · exact fun h category _ => h category
  by_cases hsections : sections = []
  · subst hsections
    exact iff_of_false (fun h => by cases h) fun h => h.2.1 rfl
  · rw [make_of_ne_nil hsections, check_eq_ok_iff, unique]
    refine and_congr_right fun hr => ?_
    subst hr
    exact (and_iff_right hsections).symm

end Report

namespace Nested

theorem built : report.Built := by
  have input (id : String) (n : Int64) :
      Cell.Built (.input ⟨some id, 1, .scalar .int, some (.int n), .none, .empty⟩) :=
    have hvalue : InputCell.withValue ⟨some id, 1, .scalar .int, none, .none, .empty⟩
        (some (.int n)) = .ok ⟨some id, 1, .scalar .int, some (.int n), .none, .empty⟩ := rfl
    ((Cell.Built.ofInput (.scalar .int)).withId id).inputValue hvalue
  have day : Cell.Built (.input dayRate) := input "dayRate" 3
  have night : Cell.Built (.input nightRate) := (input "nightRate" 5).withAvailability _
  have slotted : Cell.Built (.slotted rate) :=
    .slotted (by simpa using ⟨night, day⟩)
      (show SlottedCell.make "rate" 1 [("night", .input nightRate), ("day", .input dayRate)] "day" =
        .ok rate from rfl)
  rw [Report.Built, cells_report]
  simp only [List.forall_mem_cons, List.not_mem_nil, false_imp_iff, implies_true, and_true]
  exact ⟨(Cell.Built.ofValue _).withId "title", .ofSpan 1, slotted, day, night,
    (Cell.Built.ofOperation _).withId "total", (Cell.Built.ofInput _).withId "remark"⟩

end Nested

end ReportCalc
