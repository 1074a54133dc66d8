import ReportCalc.Proofs.Report.Building
import ReportCalc.Report.Index

/-!
# What locators mean

A locator means what a search of the report finds (`Report.Locates`): the section that is named or
that of the current cell, in it the cell with the id, and of a slotted cell a slot. The index
answers from two tables of ids instead of searching. In a report that has been made, whose ids do
not repeat, it gives the same address or the same error (`ReportIndex.locate_eq_iff`), and at the
address there is a cell (`Report.Sound.exists_cellAt?_of_locate`).
-/

namespace ReportCalc

/-! ## Searching a report -/

/-- The id of the section that an absolute locator names. -/
def Locator.sectionName? : Locator → Option String
  | .inReport name _ _ | .standard name _ _ => some name
  | _ => none

/-- Which part of the cell with an id, found at an address, a choice of slots means. -/
inductive Cell.Narrows (id : String) (a : CellAddress) :
    Cell → SlotChoice → Except EvaluationError CellAddress → Prop
  | slot {c slot selection} (h : (c.slot? slot).isSome = true) :
      Narrows id a (.slotted c) ⟨some slot, selection⟩ (.ok (a.withSlot slot))
  | slotNotFound {c slot selection} (h : c.slot? slot = none) :
      Narrows id a (.slotted c) ⟨some slot, selection⟩ (.error (.slotNotFound id slot))
  | defaultSlot {c} :
      Narrows id a (.slotted c) ⟨none, .defaultSlot⟩ (.ok (a.withSlot c.defaultSlot))
  | slotIdRequired {c} : Narrows id a (.slotted c) ⟨none, .required⟩ (.error (.slotIdRequired id))
  | notSlotted {cell slot selection} (h : cell.slotted? = none) :
      Narrows id a cell ⟨some slot, selection⟩ (.error (.notSlotted id slot))
  | whole {cell selection} (h : cell.slotted? = none) : Narrows id a cell ⟨none, selection⟩ (.ok a)

namespace Report

/-- The locator looks for the cell with an id in the section at an index, and for a slot of it. -/
inductive Seeks (r : Report) (current : Option CellAddress) :
    Locator → Nat → String → SlotChoice → Prop
  | inReport {name n id choice} (h : r.sections[n]?.map (·.id) = some name) :
      Seeks r current (.inReport name id choice) n id choice
  | standard {name n id choice} (h : r.sections[n]?.map (·.id) = some name) :
      Seeks r current (.standard name id choice) n id choice
  | inSection {a id choice} (h : current = some a) :
      Seeks r current (.inSection id choice) a.row.sectionIndex id choice

/-- What a search of the report finds for a locator. -/
inductive Locates (r : Report) (current : Option CellAddress) :
    Locator → Except EvaluationError CellAddress → Prop
  | noCurrentCell {locator} (hrelative : locator.isRelative = true) (hcurrent : current = none) :
      Locates r current locator (.error (.noCurrentCell locator.display))
  | self {a} (hcurrent : current = some a) : Locates r current .self (.ok a)
  | sectionNotFound {locator name} (hname : locator.sectionName? = some name)
      (hsections : ∀ s ∈ r.sections, s.id ≠ name) :
      Locates r current locator (.error (.sectionNotFound name))
  | cellNotFound {locator n id choice} (hseeks : r.Seeks current locator n id choice)
      (hcells : ∀ a c, (a, c) ∈ r.cells → a.row.sectionIndex = n → c.id ≠ some id) :
      Locates r current locator (.error (.cellNotFound (r.sectionId n) id))
  | cell {locator n id choice a c result} (hseeks : r.Seeks current locator n id choice)
      (hmem : (a, c) ∈ r.cells) (hn : a.row.sectionIndex = n) (hid : c.id = some id)
      (hnarrow : c.Narrows id a choice result) : Locates r current locator result

end Report

/-! ## The tables of the index -/

namespace Keyed

/-- When the keys are different, the order of the entries makes no difference to looking up. -/
theorem lookup_eq_some_iff_mem_reverse {α : Type} {entries : List (String × α)}
    (h : (entries.reverse.map Prod.fst).Nodup) {key : String} {value : α} :
    entries.lookup key = some value ↔ (key, value) ∈ entries.reverse := by
  rw [List.map_reverse, List.nodup_reverse] at h
  rw [lookup_eq_some_iff_mem h, List.mem_reverse]

end Keyed

namespace ReportIndex

variable {r : Report}

theorem lookup_sections_build (h : (r.ids .section).Nodup) {name : String} {n : Nat} :
    (build r).sections.lookup name = some n ↔ r.sections[n]?.map (·.id) = some name := by
  have keys : (build r).sections.reverse.map Prod.fst = r.ids .section := by
    rw [build, List.reverse_reverse, List.map_map]
    calc _ = (r.sections.zipIdx.map Prod.fst).map Section.id := by rw [List.map_map]; rfl
      _ = _ := by rw [List.zipIdx_map_fst]; rfl
  rw [Keyed.lookup_eq_some_iff_mem_reverse (keys ▸ h), build, List.reverse_reverse, List.mem_map,
    Option.map_eq_some_iff]
  constructor
  · rintro ⟨⟨s, index⟩, hmem, heq⟩
    cases heq
    exact ⟨s, List.mk_mem_zipIdx_iff_getElem?.1 hmem, rfl⟩
  · rintro ⟨s, hs, rfl⟩
    exact ⟨(s, n), List.mk_mem_zipIdx_iff_getElem?.2 hs, rfl⟩

theorem lookup_cells_build (h : (r.ids .cell).Nodup) {id : String} {a : CellAddress} :
    (build r).cells.lookup id = some a ↔ ∃ c, (a, c) ∈ r.cells ∧ c.id = some id := by
  have keys : (build r).cells.reverse.map Prod.fst = r.ids .cell := by
    rw [build, List.reverse_reverse, List.map_filterMap, Report.ids]
    refine List.filterMap_congr fun entry _ => ?_
    obtain ⟨a, cell⟩ := entry
    cases hid : cell.id <;> simp [hid]
  rw [Keyed.lookup_eq_some_iff_mem_reverse (keys ▸ h), build, List.reverse_reverse,
    List.mem_filterMap]
  constructor
  · rintro ⟨⟨b, c⟩, hmem, heq⟩
    obtain ⟨_, hid, heq⟩ := Option.map_eq_some_iff.1 heq
    cases heq
    exact ⟨c, hmem, hid⟩
  · rintro ⟨c, hmem, hid⟩
    exact ⟨(a, c), hmem, by simp [hid]⟩

theorem sectionIndex_build_eq_ok_iff (h : (r.ids .section).Nodup) {name : String} {n : Nat} :
    (build r).sectionIndex name = .ok n ↔ r.sections[n]?.map (·.id) = some name := by
  rw [← lookup_sections_build h, sectionIndex]
  cases (build r).sections.lookup name <;> simp

theorem sectionIndex_build_eq_error (h : (r.ids .section).Nodup) {name : String}
    (hsections : ∀ s ∈ r.sections, s.id ≠ name) :
    (build r).sectionIndex name = .error (.sectionNotFound name) := by
  cases hfound : (build r).sectionIndex name with
  | ok n =>
    obtain ⟨s, hs, hid⟩ := Option.map_eq_some_iff.1 ((sectionIndex_build_eq_ok_iff h).1 hfound)
    exact absurd hid (hsections s (List.mem_of_getElem? hs))
  | error e =>
    unfold sectionIndex at hfound
    split at hfound <;> cases hfound
    rfl

end ReportIndex

/-- An id belongs to one cell at most. -/
theorem Report.address_eq_of_id {r : Report} (h : (r.ids .cell).Nodup) {a b : CellAddress}
    {c d : Cell} {id : String} (hc : (a, c) ∈ r.cells) (hd : (b, d) ∈ r.cells)
    (hcid : c.id = some id) (hdid : d.id = some id) : a = b := by
  have ha := (ReportIndex.lookup_cells_build h).2 ⟨c, hc, hcid⟩
  have hb := (ReportIndex.lookup_cells_build h).2 ⟨d, hd, hdid⟩
  exact Option.some.inj (ha.symm.trans hb)

/-! ## Locating -/

namespace ReportIndex

variable {r : Report} {current : Option CellAddress} {locator : Locator}
  {result : Except EvaluationError CellAddress}

theorem narrow_eq_iff {id : String} {a : CellAddress} {cell : Cell} {choice : SlotChoice} :
    narrow id a cell choice = result ↔ cell.Narrows id a choice result := by
  constructor
  · rintro rfl
    obtain ⟨slot, selection⟩ := choice
    rcases cell.exists_slotted_or with ⟨c, rfl⟩ | hcell
    · cases slot with
      | some slot =>
        simp only [narrow]
        split
        · next h => exact .slot h
        · next h => exact .slotNotFound (by simpa using h)
      | none =>
        cases selection with
        | required => exact .slotIdRequired
        | defaultSlot => exact .defaultSlot
    · rw [narrow_of_slotted?_eq_none hcell (d := .null ⟨none, 0⟩) rfl]
      cases slot with
      | some slot => exact .notSlotted hcell
      | none => exact .whole hcell
  · intro h
    cases h with
    | slot h => exact if_pos h
    | slotNotFound h => exact if_neg (by simp [h])
    | defaultSlot | slotIdRequired => rfl
    | notSlotted h | whole h => exact narrow_of_slotted?_eq_none (d := .null ⟨none, 0⟩) h rfl

theorem locateIn_build_of_mem (hwf : r.WellFormed) (hids : (r.ids .cell).Nodup) {a : CellAddress}
    {c : Cell} {id : String} (hmem : (a, c) ∈ r.cells) (hid : c.id = some id)
    (choice : SlotChoice) :
    (build r).locateIn r a.row.sectionIndex id choice = narrow id a c choice := by
  unfold locateIn
  rw [(lookup_cells_build hids).2 ⟨c, hmem, hid⟩, Option.filter_some, if_pos (beq_self_eq_true _)]
  simp only [(Report.mem_cells_iff hwf).1 hmem]

theorem locateIn_build_of_forall_ne (hids : (r.ids .cell).Nodup) {n : Nat} {id : String}
    (h : ∀ a c, (a, c) ∈ r.cells → a.row.sectionIndex = n → c.id ≠ some id)
    (choice : SlotChoice) :
    (build r).locateIn r n id choice = .error (.cellNotFound (r.sectionId n) id) := by
  have absent : ((build r).cells.lookup id).filter (·.row.sectionIndex == n) = none := by
    rw [Option.filter_eq_none_iff]
    intro a ha hn
    obtain ⟨c, hmem, hid⟩ := (lookup_cells_build hids).1 ha
    exact h a c hmem (eq_of_beq hn) hid
  unfold locateIn
  rw [absent]
  rfl

/-- Looking in a section finds what a search finds there. -/
theorem locates_locateIn (hwf : r.WellFormed) (hids : (r.ids .cell).Nodup) {n : Nat} {id : String}
    {choice : SlotChoice} (hseeks : r.Seeks current locator n id choice) :
    r.Locates current locator ((build r).locateIn r n id choice) := by
  by_cases h : ∀ a c, (a, c) ∈ r.cells → a.row.sectionIndex = n → c.id ≠ some id
  · rw [locateIn_build_of_forall_ne hids h]
    exact .cellNotFound hseeks h
  · push Not at h
    obtain ⟨a, c, hmem, rfl, hid⟩ := h
    rw [locateIn_build_of_mem hwf hids hmem hid]
    exact .cell hseeks hmem rfl hid (narrow_eq_iff.1 rfl)

theorem locate_build_of_seeks (hsections : (r.ids .section).Nodup) {n : Nat} {id : String}
    {choice : SlotChoice} (hseeks : r.Seeks current locator n id choice) :
    (build r).locate r locator current = (build r).locateIn r n id choice := by
  cases hseeks with
  | inReport h | standard h =>
    simp only [locate, (sectionIndex_build_eq_ok_iff hsections).2 h]
    rfl
  | inSection h =>
    rw [h]
    rfl

/-- When the cell that the locator looks for is there, the choice of slots decides. -/
theorem locate_build_of_mem (hwf : r.WellFormed) (hids : ∀ category, (r.ids category).Nodup)
    {n : Nat} {id : String} {choice : SlotChoice} (hseeks : r.Seeks current locator n id choice)
    {a : CellAddress} {c : Cell} (hmem : (a, c) ∈ r.cells) (hn : a.row.sectionIndex = n)
    (hid : c.id = some id) : (build r).locate r locator current = narrow id a c choice := by
  subst hn
  rw [locate_build_of_seeks (hids _) hseeks, locateIn_build_of_mem hwf (hids _) hmem hid]

/-- The index finds what a search of the report finds. -/
theorem locates_locate (hwf : r.WellFormed) (hids : ∀ category, (r.ids category).Nodup)
    (locator : Locator) (current : Option CellAddress) :
    r.Locates current locator ((build r).locate r locator current) := by
  -- both locators that name a section first look for it and then, if it is there, for the cell
  have absolute {name id : String} {choice : SlotChoice}
      (hname : locator.sectionName? = some name)
      (hseeks : ∀ n, r.sections[n]?.map (·.id) = some name → r.Seeks current locator n id choice)
      (heq : (build r).locate r locator current =
        (build r).sectionIndex name >>= fun n => (build r).locateIn r n id choice) :
      r.Locates current locator ((build r).locate r locator current) := by
    by_cases hsections : ∀ s ∈ r.sections, s.id ≠ name
    · rw [heq, sectionIndex_build_eq_error (hids _) hsections]
      exact .sectionNotFound hname hsections
    · push Not at hsections
      obtain ⟨s, hs, hid⟩ := hsections
      obtain ⟨n, hn⟩ := List.mem_iff_getElem?.1 hs
      have hseeks := hseeks n (by rw [hn, Option.map_some, hid])
      rw [locate_build_of_seeks (hids _) hseeks]
      exact locates_locateIn hwf (hids _) hseeks
  cases locator with
  | inReport name id choice => exact absolute rfl (fun _ => .inReport) rfl
  | standard name id choice => exact absolute rfl (fun _ => .standard) rfl
  | inSection id choice =>
    cases current with
    | none => exact .noCurrentCell rfl rfl
    | some a => exact locates_locateIn hwf (hids _) (.inSection rfl)
  | self =>
    cases current with
    | none => exact .noCurrentCell rfl rfl
    | some a => exact .self rfl

/-- What a search of the report finds, the index finds. -/
theorem locate_eq_of_locates (hwf : r.WellFormed) (hids : ∀ category, (r.ids category).Nodup)
    (h : r.Locates current locator result) : (build r).locate r locator current = result := by
  cases h with
  | noCurrentCell hrelative hcurrent =>
    subst hcurrent
    cases locator <;> first | rfl | cases hrelative
  | self hcurrent =>
    subst hcurrent
    rfl
  | sectionNotFound hname hsections =>
    have hfound := sectionIndex_build_eq_error (hids _) hsections
    cases locator <;> cases hname <;> simp only [locate, hfound] <;> rfl
  | cellNotFound hseeks hcells =>
    rw [locate_build_of_seeks (hids _) hseeks, locateIn_build_of_forall_ne (hids _) hcells]
  | cell hseeks hmem hn hid hnarrow =>
    exact (locate_build_of_mem hwf hids hseeks hmem hn hid).trans (narrow_eq_iff.2 hnarrow)

theorem locate_eq_iff (hwf : r.WellFormed) (hids : ∀ category, (r.ids category).Nodup) :
    (build r).locate r locator current = result ↔ r.Locates current locator result :=
  ⟨fun h => h ▸ locates_locate hwf hids locator current, locate_eq_of_locates hwf hids⟩

end ReportIndex

/-! ## Cells at the addresses that are found -/

namespace Report

variable {r : Report} {current : Option CellAddress} {locator : Locator}

theorem cellAt?_withSlot {a : CellAddress} {c : SlottedCell Cell} (ha : a.slot = none)
    (hc : r.cellAt? a = some (.slotted c)) (slot : String) :
    r.cellAt? (a.withSlot slot) = c.slot? slot := by
  have hcontainer : (a.withSlot slot).container = a := by
    obtain ⟨row, index, _⟩ := a
    cases ha
    rfl
  rw [cellAt?_eq_bind, hcontainer, hc]
  rfl

/-- A cell in a slot is not slotted, so a slotted cell is not in a slot. -/
theorem Sound.slot_eq_none (h : r.Sound) {a : CellAddress} {c : SlottedCell Cell}
    (hc : r.cellAt? a = some (.slotted c)) : a.slot = none := by
  by_contra hslot
  obtain ⟨slot, hslot⟩ := Option.ne_none_iff_exists'.1 hslot
  rw [cellAt?_eq_bind, hslot] at hc
  obtain ⟨outer, houter, hc⟩ := Option.bind_eq_some_iff.1 hc
  obtain ⟨d, hd, hlookup⟩ := Option.bind_eq_some_iff.1 hc
  have hsound := h _ ((mem_cells_iff h.wellFormed).2 houter) d hd
  have hmem := (Keyed.lookup_eq_some_iff_mem hsound.sorted.nodup).1 hlookup
  cases hsound.flat _ hmem

/-- At the address that a choice of slots gives there is a cell. -/
theorem Sound.exists_cellAt?_of_narrows (h : r.Sound) {id : String} {a b : CellAddress} {c : Cell}
    {choice : SlotChoice} (hc : r.cellAt? b = some c) (hnarrows : c.Narrows id b choice (.ok a)) :
    ∃ d, r.cellAt? a = some d := by
  cases hnarrows with
  | slot hslot =>
    rw [cellAt?_withSlot (h.slot_eq_none hc) hc]
    exact Option.isSome_iff_exists.1 hslot
  | defaultSlot =>
    rw [cellAt?_withSlot (h.slot_eq_none hc) hc]
    exact Option.isSome_iff_exists.1 (h _ ((mem_cells_iff h.wellFormed).2 hc) _ rfl).default
  | whole => exact ⟨c, hc⟩

/-- At an address that an index gives there is a cell. -/
theorem Sound.exists_cellAt?_of_locate (h : r.Sound)
    (hcurrent : ∀ a ∈ current, a ∈ r.cells.map Prod.fst) {index : ReportIndex} {a : CellAddress}
    (hlocate : index.locate r locator current = .ok a) : ∃ c, r.cellAt? a = some c := by
  have listed {b : CellAddress} (hb : ReportIndex.currentOf locator current = .ok b) :
      ∃ c, r.cellAt? b = some c := by
    cases current with
    | none => cases hb
    | some b' =>
      cases hb
      obtain ⟨⟨_, c⟩, hmem, rfl⟩ := List.mem_map.1 (hcurrent _ rfl)
      exact ⟨c, (mem_cells_iff h.wellFormed).1 hmem⟩
  have within {n : Nat} {id : String} {choice : SlotChoice}
      (hb : index.locateIn r n id choice = .ok a) : ∃ c, r.cellAt? a = some c := by
    unfold ReportIndex.locateIn at hb
    split at hb
    · split at hb
      · next hc => exact h.exists_cellAt?_of_narrows hc (ReportIndex.narrow_eq_iff.1 hb)
      · cases hb
    · cases hb
  cases locator with
  | self => exact listed hlocate
  | _ =>
    obtain ⟨_, -, hb⟩ := exists_of_bind_eq_ok hlocate
    exact within hb

/-! ## When nothing is found -/

theorem locates_noCurrentCell_iff : r.Locates current locator (.error (.noCurrentCell
    locator.display)) ↔ locator.isRelative = true ∧ current = none := by
  constructor
  · intro h
    cases h with
    | noCurrentCell hrelative hcurrent => exact ⟨hrelative, hcurrent⟩
    | cell _ _ _ _ hnarrow => cases hnarrow
  · exact fun ⟨hrelative, hcurrent⟩ => .noCurrentCell hrelative hcurrent

theorem locates_sectionNotFound_iff {name : String} (hname : locator.sectionName? = some name) :
    r.Locates current locator (.error (.sectionNotFound name)) ↔
      ∀ s ∈ r.sections, s.id ≠ name := by
  constructor
  · intro h
    cases h with
    | sectionNotFound _ hsections => exact hsections
    | cell _ _ _ _ hnarrow => cases hnarrow
  · exact .sectionNotFound hname

/-- A locator looks for one cell in one section. -/
theorem Seeks.unique (h : (r.ids .section).Nodup) {n m : Nat} {id id' : String}
    {choice choice' : SlotChoice} (hn : r.Seeks current locator n id choice)
    (hm : r.Seeks current locator m id' choice') : n = m ∧ id = id' ∧ choice = choice' := by
  have same {name : String} (hn : r.sections[n]?.map (·.id) = some name)
      (hm : r.sections[m]?.map (·.id) = some name) : n = m := by
    have found := (ReportIndex.lookup_sections_build h).2 hn
    exact Option.some.inj (found.symm.trans ((ReportIndex.lookup_sections_build h).2 hm))
  cases hn with
  | inReport hn =>
    cases hm with
    | inReport hm => exact ⟨same hn hm, rfl, rfl⟩
  | standard hn =>
    cases hm with
    | standard hm => exact ⟨same hn hm, rfl, rfl⟩
  | inSection ha =>
    cases hm with
    | inSection hb =>
      cases ha.symm.trans hb
      exact ⟨rfl, rfl, rfl⟩

theorem locates_cellNotFound_iff (hsections : (r.ids .section).Nodup) {n : Nat} {id : String}
    {choice : SlotChoice} (hseeks : r.Seeks current locator n id choice) :
    r.Locates current locator (.error (.cellNotFound (r.sectionId n) id)) ↔
      ∀ a c, (a, c) ∈ r.cells → a.row.sectionIndex = n → c.id ≠ some id := by
  constructor
  · generalize hname : r.sectionId n = name
    intro h
    cases h with
    | cellNotFound hseeks' hcells =>
      obtain ⟨rfl, -, -⟩ := hseeks.unique hsections hseeks'
      exact hcells
    | cell _ _ _ _ hnarrow => cases hnarrow
  · exact .cellNotFound hseeks

end Report

namespace ReportIndex

variable {r : Report}

theorem section?_eq_of_sectionIndex (h : (r.ids .section).Nodup) {name : String} {n : Nat}
    (hn : (build r).sectionIndex name = .ok n) : r.section? name = r.sections[n]? := by
  obtain ⟨s, hs, hid⟩ := Option.map_eq_some_iff.1 ((sectionIndex_build_eq_ok_iff h).1 hn)
  have hmem := List.mem_of_getElem? hs
  cases hfound : r.section? name with
  | none => exact absurd (beq_iff_eq.2 hid) (List.find?_eq_none.1 hfound s hmem)
  | some s' =>
    have found : r.sections.find? (·.id == name) = some s' := hfound
    have hid' : s'.id = name := by simpa using List.find?_some found
    have hmem' := List.mem_of_find?_eq_some found
    rw [hs, List.inj_on_of_nodup_map h hmem' hmem (hid'.trans hid.symm)]

theorem resolve_eq_of_locate {index : ReportIndex} {locator : Locator}
    {current : Option CellAddress} {a : CellAddress} {c : Cell}
    (hlocate : index.locate r locator current = .ok a) (hc : r.cellAt? a = some c) :
    index.resolve r locator current = .ok ⟨a, c⟩ := by
  unfold resolve
  rw [hlocate]
  simp only [bind, Except.bind, hc]

end ReportIndex

namespace Nested

theorem make_report : Report.make "report" sections = .ok report := rfl

end Nested

end ReportCalc
