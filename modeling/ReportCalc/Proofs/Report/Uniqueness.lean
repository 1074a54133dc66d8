import Mathlib.Data.List.Induction
import ReportCalc.Proofs.Report.Building
import ReportCalc.Proofs.Report.Declaration

/-!
# Unique ids

Sections, columns, rows and cells have ids, which must not repeat in the report. The places that
have one (`IdPlace`) come in the order of declaration, and an id repeats at a place when an earlier
place of its category has it too (`Report.Repeats`). A report is made when every category has
different ids at different places, and else refused for the first category in which an id repeats,
with the id that repeats at the first place (`Report.make_exact`). What the construction scans are
lists of ids, of which `Report.idEntries` says where each of them comes from.
-/

namespace ReportCalc

/-! ## Repetitions in a list in order -/

/-- The value of the entry is that of an entry before it, too. -/
def InOrder.RepeatsIn {κ α : Type} (before : κ → κ → Prop) (entries : List (κ × α)) (y : κ × α) :
    Prop :=
  ∃ q, before q y.1 ∧ (q, y.2) ∈ entries

namespace InOrder

variable {κ α : Type} {before : κ → κ → Prop} [Std.Asymm before]

/-- A value repeats at its place when it is among the values before. -/
theorem repeatsIn_iff {pre post : List (κ × α)} {y : κ × α}
    (h : InOrder before (pre ++ y :: post)) :
    RepeatsIn before (pre ++ y :: post) y ↔ y.2 ∈ pre.map Prod.snd := by
  constructor
  · rintro ⟨q, hbefore, hmem⟩
    exact List.mem_map.2 ⟨_, (h.before_iff_mem hmem).1 hbefore, rfl⟩
  · intro hmem
    obtain ⟨⟨q, a⟩, hq, rfl⟩ := List.mem_map.1 hmem
    have hentry : (q, y.2) ∈ pre ++ y :: post := List.mem_append_left _ hq
    exact ⟨q, (h.before_iff_mem hentry).2 hq, hentry⟩

/-- The values up to a place are different when none of them repeats. A value is compared with the
ones before it, so the induction adds them at the end. -/
theorem nodup_map_iff {pre post : List (κ × α)} (h : InOrder before (pre ++ post)) :
    (pre.map Prod.snd).Nodup ↔ ∀ y ∈ pre, ¬RepeatsIn before (pre ++ post) y := by
  induction pre using List.reverseRecOn generalizing post with
  | nil => simp
  | append_singleton pre y ih =>
    rw [List.append_assoc, List.singleton_append] at h ⊢
    rw [List.map_append, List.map_singleton, ← List.concat_eq_append, List.nodup_concat, ih h,
      ← h.repeatsIn_iff, List.forall_mem_append, List.forall_mem_singleton, and_comm]

/-- A value that is among those before it, which are different, is the one that repeats at the first
place. -/
theorem firstRepeated_iff {entries : List (κ × α)} (h : InOrder before entries) {a : α} :
    (∃ pre post, entries.map Prod.snd = pre ++ a :: post ∧ pre.Nodup ∧ a ∈ pre) ↔
      ∃ p, (p, a) ∈ entries ∧ RepeatsIn before entries (p, a) ∧
        ∀ y ∈ entries, before y.1 p → ¬RepeatsIn before entries y := by
  simp only [← h.first_iff (P := RepeatsIn before entries)]
  constructor
  · rintro ⟨_, _, hvalues, hnodup, ha⟩
    obtain ⟨pre, p, post, rfl, rfl⟩ := exists_of_map_snd_eq hvalues
    exact ⟨p, pre, post, rfl, h.nodup_map_iff.1 hnodup, h.repeatsIn_iff.2 ha⟩
  · rintro ⟨p, pre, post, rfl, hpre, hrepeats⟩
    refine ⟨pre.map Prod.snd, post.map Prod.snd, ?_, h.nodup_map_iff.2 hpre,
      h.repeatsIn_iff.1 hrepeats⟩
    rw [List.map_append, List.map_cons]

end InOrder

/-! ## The places of ids -/

/-- What has an id in a report, by its place. -/
inductive IdPlace where
  | section (index : Nat)
  | column (sectionIndex index : Nat)
  | row (position : RowPosition)
  | cell (address : CellAddress)

namespace IdPlace

def category : IdPlace → IdCategory
  | .section _ => .section
  | .column _ _ => .column
  | .row _ => .row
  | .cell _ => .cell

/-- The order of declaration of the places of one category. -/
inductive Before : IdPlace → IdPlace → Prop
  | sections {m n : Nat} (h : m < n) : Before (.section m) (.section n)
  | tables {m n i j : Nat} (h : m < n) : Before (.column m i) (.column n j)
  | columns {n i j : Nat} (h : i < j) : Before (.column n i) (.column n j)
  | rows {p q : RowPosition} (h : p.Before q) : Before (.row p) (.row q)
  | cells {a b : CellAddress} (h : a.Before b) : Before (.cell a) (.cell b)

instance : Std.Asymm Before where
  asymm p q h h' := by
    cases h with
    | sections h =>
      cases h' with
      | sections h' => exact Nat.lt_asymm h h'
    | tables h =>
      cases h' with
      | tables h' => exact Nat.lt_asymm h h'
      | columns => exact Nat.lt_irrefl _ h
    | columns h =>
      cases h' with
      | tables h' => exact Nat.lt_irrefl _ h'
      | columns h' => exact Nat.lt_asymm h h'
    | rows h =>
      cases h' with
      | rows h' => exact Std.Asymm.asymm _ _ h h'
    | cells h =>
      cases h' with
      | cells h' => exact Std.Asymm.asymm _ _ h h'

theorem Before.category_eq {p q : IdPlace} (h : p.Before q) : p.category = q.category := by
  cases h <;> rfl

end IdPlace

namespace Report

/-- The id at a place, if there is one. -/
def idAt? (r : Report) : IdPlace → Option String
  | .section n => r.sections[n]?.map (·.id)
  | .column n i => r.sections[n]?.bind fun s => s.table.columns[i]?.map (·.id)
  | .row p => (r.rowAt? p).map (·.id)
  | .cell a => (r.cellAt? a).bind (·.id)

/-- The id is at the place and at one that is declared before. -/
def Repeats (r : Report) (p : IdPlace) (id : String) : Prop :=
  r.idAt? p = some id ∧ ∃ q, q.Before p ∧ r.idAt? q = some id

/-- Different places of the category have different ids. -/
def Distinct (r : Report) (category : IdCategory) : Prop :=
  ∀ p q id, p.category = category → q.category = category →
    r.idAt? p = some id → r.idAt? q = some id → p = q

/-- The id is the first one of the category that repeats. -/
def FirstRepeated (r : Report) (category : IdCategory) (id : String) : Prop :=
  ∃ p, p.category = category ∧ r.Repeats p id ∧ ∀ q id', q.Before p → ¬r.Repeats q id'

/-! ## The ids with their places -/

/-- The ids of a category with their places, in order. -/
def idEntries (r : Report) : IdCategory → List (IdPlace × String)
  | .section => r.sections.zipIdx.map fun (s, n) => (.section n, s.id)
  | .column => r.sections.zipIdx.flatMap fun (s, n) =>
      s.table.columns.zipIdx.map fun (column, i) => (.column n i, column.id)
  | .row => r.rows.map fun (p, row) => (.row p, row.id)
  | .cell => r.cells.filterMap fun (a, cell) => cell.id.map fun id => (.cell a, id)

variable {r : Report} {category : IdCategory} {p : IdPlace} {id : String}

theorem map_idEntries (r : Report) (category : IdCategory) :
    (r.idEntries category).map Prod.snd = r.ids category := by
  cases category with
  | «section» =>
    rw [idEntries, ids, List.map_map, map_eq_zipIdx r.sections]
    rfl
  | column =>
    rw [idEntries, ids, List.map_flatMap, flatMap_eq_zipIdx r.sections]
    refine List.flatMap_congr ?_
    rintro ⟨s, n⟩ -
    dsimp only
    rw [List.map_map, map_eq_zipIdx s.table.columns]
    rfl
  | row =>
    rw [idEntries, ids, ← List.map_flatMap, ← map_rows, List.map_map, List.map_map]
    rfl
  | cell =>
    rw [idEntries, ids, List.map_filterMap]
    refine List.filterMap_congr ?_
    rintro ⟨a, cell⟩ -
    rw [Option.map_map]
    exact Option.map_id'

/-- The entries of a category are the ids at its places. -/
theorem mem_idEntries_iff (h : r.WellFormed) :
    (p, id) ∈ r.idEntries category ↔ p.category = category ∧ r.idAt? p = some id := by
  constructor
  · intro hmem
    cases category with
    | «section» =>
      obtain ⟨⟨s, n⟩, hs, heq⟩ := List.mem_map.1 hmem
      cases heq
      exact ⟨rfl, Option.map_eq_some_iff.2 ⟨s, List.mem_zipIdx_iff_getElem?.1 hs, rfl⟩⟩
    | column =>
      obtain ⟨⟨s, n⟩, hs, hmem⟩ := List.mem_flatMap.1 hmem
      obtain ⟨⟨column, i⟩, hcolumn, heq⟩ := List.mem_map.1 hmem
      cases heq
      refine ⟨rfl, Option.bind_eq_some_iff.2 ⟨s, List.mem_zipIdx_iff_getElem?.1 hs, ?_⟩⟩
      exact Option.map_eq_some_iff.2 ⟨column, List.mem_zipIdx_iff_getElem?.1 hcolumn, rfl⟩
    | row =>
      obtain ⟨⟨position, row⟩, hrow, heq⟩ := List.mem_map.1 hmem
      cases heq
      exact ⟨rfl, Option.map_eq_some_iff.2 ⟨row, mem_rows_iff.1 hrow, rfl⟩⟩
    | cell =>
      obtain ⟨⟨a, cell⟩, hcell, heq⟩ := List.mem_filterMap.1 hmem
      obtain ⟨_, hid, heq⟩ := Option.map_eq_some_iff.1 heq
      cases heq
      exact ⟨rfl, Option.bind_eq_some_iff.2 ⟨cell, (mem_cells_iff h).1 hcell, hid⟩⟩
  · rintro ⟨rfl, hid⟩
    cases p with
    | «section» n =>
      obtain ⟨s, hs, rfl⟩ := Option.map_eq_some_iff.1 hid
      exact List.mem_map.2 ⟨(s, n), List.mem_zipIdx_iff_getElem?.2 hs, rfl⟩
    | column n i =>
      obtain ⟨s, hs, hid⟩ := Option.bind_eq_some_iff.1 hid
      obtain ⟨column, hcolumn, rfl⟩ := Option.map_eq_some_iff.1 hid
      refine List.mem_flatMap.2 ⟨(s, n), List.mem_zipIdx_iff_getElem?.2 hs, ?_⟩
      exact List.mem_map.2 ⟨(column, i), List.mem_zipIdx_iff_getElem?.2 hcolumn, rfl⟩
    | row position =>
      obtain ⟨row, hrow, rfl⟩ := Option.map_eq_some_iff.1 hid
      exact List.mem_map.2 ⟨(position, row), mem_rows_iff.2 hrow, rfl⟩
    | cell a =>
      obtain ⟨cell, hcell, hid⟩ := Option.bind_eq_some_iff.1 hid
      refine List.mem_filterMap.2 ⟨(a, cell), (mem_cells_iff h).2 hcell, ?_⟩
      exact Option.map_eq_some_iff.2 ⟨id, hid, rfl⟩

theorem inOrder_idEntries (h : r.WellFormed) (category : IdCategory) :
    InOrder IdPlace.Before (r.idEntries category) := by
  cases category with
  | «section» => exact List.pairwise_map.2 ((pairwise_zipIdx r.sections).imp .sections)
  | column =>
    refine List.pairwise_flatMap.2 ⟨?_, (pairwise_zipIdx r.sections).imp fun hlt x hx y hy => ?_⟩
    · rintro ⟨s, n⟩ -
      exact List.pairwise_map.2 ((pairwise_zipIdx s.table.columns).imp .columns)
    · obtain ⟨_, -, rfl⟩ := List.mem_map.1 hx
      obtain ⟨_, -, rfl⟩ := List.mem_map.1 hy
      exact .tables hlt
  | row => exact List.pairwise_map.2 (r.inOrder_rows.imp .rows)
  | cell =>
    refine List.pairwise_filterMap.2 ((inOrder_cells h).imp fun hbefore x hx y hy => ?_)
    obtain ⟨_, -, rfl⟩ := Option.map_eq_some_iff.1 hx
    obtain ⟨_, -, rfl⟩ := Option.map_eq_some_iff.1 hy
    exact .cells hbefore

/-! ## Construction -/

theorem nodup_ids_iff (h : r.WellFormed) : (r.ids category).Nodup ↔ r.Distinct category := by
  have hnodup : (r.idEntries category).Nodup := by
    refine (inOrder_idEntries h category).imp ?_
    rintro x _ hbefore rfl
    exact Std.Asymm.asymm _ _ hbefore hbefore
  rw [← map_idEntries, List.nodup_map_iff_inj_on hnodup]
  constructor
  · intro hinj p q id hp hq hpid hqid
    exact (Prod.mk.inj (hinj (p, id) ((mem_idEntries_iff h).2 ⟨hp, hpid⟩) (q, id)
      ((mem_idEntries_iff h).2 ⟨hq, hqid⟩) rfl)).1
  · rintro hdistinct ⟨p, id⟩ hmem ⟨q, _⟩ hmem' rfl
    obtain ⟨hp, hpid⟩ := (mem_idEntries_iff h).1 hmem
    obtain ⟨hq, hqid⟩ := (mem_idEntries_iff h).1 hmem'
    rw [hdistinct p q id hp hq hpid hqid]

/-- The scan stops at the first id that is among those seen before. -/
theorem repeatedAfter?_eq_some_iff {seen ids : List String} :
    repeatedAfter? seen ids = some id ↔
      ∃ pre post, ids = pre ++ id :: post ∧ repeatedAfter? seen pre = none ∧
        (id ∈ seen ∨ id ∈ pre) := by
  constructor
  · intro h
    induction ids generalizing seen with
    | nil => cases h
    | cons first rest ih =>
      rw [repeatedAfter?] at h
      split at h
      next hseen =>
        cases h
        exact ⟨[], rest, rfl, rfl, .inl hseen⟩
      next hfresh =>
        obtain ⟨pre, post, rfl, hpre, hid⟩ := ih h
        refine ⟨first :: pre, post, rfl, (if_neg hfresh).trans hpre, ?_⟩
        rw [List.mem_cons] at hid ⊢
        tauto
  · rintro ⟨pre, post, rfl, hpre, hid⟩
    induction pre generalizing seen with
    | nil => exact if_pos (hid.resolve_right List.not_mem_nil)
    | cons first pre ih =>
      rw [repeatedAfter?] at hpre
      split at hpre
      next => cases hpre
      next hfresh =>
        rw [List.cons_append, repeatedAfter?, if_neg hfresh]
        refine ih hpre ?_
        rw [List.mem_cons] at hid ⊢
        tauto

theorem repeatsIn_idEntries_iff (h : r.WellFormed) (hp : p.category = category) :
    InOrder.RepeatsIn IdPlace.Before (r.idEntries category) (p, id) ↔
      ∃ q, q.Before p ∧ r.idAt? q = some id := by
  refine exists_congr fun q => and_congr_right fun hbefore => ?_
  rw [mem_idEntries_iff h, hbefore.category_eq, and_iff_right hp]

theorem repeatedAfter?_ids_eq_some_iff (h : r.WellFormed) :
    repeatedAfter? [] (r.ids category) = some id ↔ r.FirstRepeated category id := by
  have hscan : repeatedAfter? [] (r.ids category) = some id ↔
      ∃ pre post, (r.idEntries category).map Prod.snd = pre ++ id :: post ∧
        pre.Nodup ∧ id ∈ pre := by
    simp only [repeatedAfter?_eq_some_iff, repeatedAfter?_nil_eq_none_iff, map_idEntries,
      List.not_mem_nil, false_or]
  rw [hscan, (inOrder_idEntries h category).firstRepeated_iff]
  constructor
  · rintro ⟨p, hmem, hrepeats, hfirst⟩
    obtain ⟨hp, hpid⟩ := (mem_idEntries_iff h).1 hmem
    refine ⟨p, hp, ⟨hpid, (repeatsIn_idEntries_iff h hp).1 hrepeats⟩, ?_⟩
    rintro q id' hbefore ⟨hqid, hq⟩
    have hcategory := hbefore.category_eq.trans hp
    exact hfirst (q, id') ((mem_idEntries_iff h).2 ⟨hcategory, hqid⟩) hbefore
      ((repeatsIn_idEntries_iff h hcategory).2 hq)
  · rintro ⟨p, hp, ⟨hpid, hrepeats⟩, hfirst⟩
    refine ⟨p, (mem_idEntries_iff h).2 ⟨hp, hpid⟩, (repeatsIn_idEntries_iff h hp).2 hrepeats, ?_⟩
    rintro ⟨q, id'⟩ hmem hbefore hq
    obtain ⟨hcategory, hqid⟩ := (mem_idEntries_iff h).1 hmem
    exact hfirst q id' hbefore ⟨hqid, (repeatsIn_idEntries_iff h hcategory).1 hq⟩

theorem checkUnique_eq_error_iff {ids : List String} {e : ConstructionError} :
    checkUnique category ids = .error e ↔
      ∃ id, repeatedAfter? [] ids = some id ∧ e = .duplicateId category id := by
  rw [checkUnique]
  cases repeatedAfter? [] ids <;> simp [eq_comm]

/-- The check of all categories stops at the first one in which an id repeats. -/
theorem forM_checkUnique_eq_error_iff (h : r.WellFormed) {categories : List IdCategory}
    {e : ConstructionError} :
    (categories.forM fun category => checkUnique category (r.ids category)) = .error e ↔
      ∃ before category after repeated, categories = before ++ category :: after ∧
        (∀ other ∈ before, r.Distinct other) ∧ r.FirstRepeated category repeated ∧
        e = .duplicateId category repeated := by
  simp only [forM_eq_error_iff, checkUnique_eq_ok_iff, nodup_ids_iff h, checkUnique_eq_error_iff,
    repeatedAfter?_ids_eq_some_iff h]
  refine exists₃_congr fun before category after => ?_
  simp only [exists_and_left]

/-- A report is made of sections, at least one, in which different places of a category have
different ids. Else it is refused: without sections for having none, and with sections for the first
category, in the order of sections, columns, rows and cells, in which an id repeats, with the first
one that does. -/
theorem make_exact (id : String) (sections : List Section)
    (h : (⟨id, sections⟩ : Report).WellFormed) :
    (∀ r, make id sections = .ok r ↔
      r = ⟨id, sections⟩ ∧ sections ≠ [] ∧ ∀ category, r.Distinct category) ∧
    ∀ e, make id sections = .error e ↔
      (sections = [] ∧ e = .noSections id) ∨
      (sections ≠ [] ∧ ∃ before category after repeated,
        [.section, .column, .row, .cell] = before ++ category :: after ∧
          (∀ other ∈ before, (⟨id, sections⟩ : Report).Distinct other) ∧
          (⟨id, sections⟩ : Report).FirstRepeated category repeated ∧
          e = .duplicateId category repeated) := by
  constructor
  · intro r
    rw [make_eq_ok_iff]
    constructor
    · rintro ⟨rfl, hsections, hids⟩
      exact ⟨rfl, hsections, fun category => (nodup_ids_iff h).1 (hids category)⟩
    · rintro ⟨rfl, hsections, hids⟩
      exact ⟨rfl, hsections, fun category => (nodup_ids_iff h).2 (hids category)⟩
  · intro e
    rcases eq_or_ne sections [] with rfl | hsections
    · have hmake : make id [] = .error (.noSections id) := rfl
      rw [hmake, Except.error.injEq, eq_comm]
      simp
    · rw [make_of_ne_nil hsections, check_eq_error_iff, forM_checkUnique_eq_error_iff h]
      simp [hsections]

end Report

namespace Nested

/-- A section of two cells with ids that the section with the trip has, too: of a slot and of its
first cell. -/
def ambiguous : Section :=
  ⟨"more", "", ⟨[⟨"left", ""⟩, ⟨"right", ""⟩],
    [], [⟨"more", [.null ⟨some "nightRate", 1⟩, .null ⟨some "title", 1⟩], [], none, none⟩], []⟩⟩

theorem wellFormed_ambiguous : (⟨"report", sections ++ [ambiguous]⟩ : Report).WellFormed := by
  have hcells : (⟨"report", sections ++ [ambiguous]⟩ : Report).cells = report.cells ++
      ambiguous.entries 2 := rfl
  rw [Report.WellFormed, hcells, List.forall_mem_append]
  refine ⟨wellFormed, ?_⟩
  rw [show ambiguous.entries 2 = [_, _] from rfl]
  simp [Cell.WellFormed]

/-- The report is made; with the ambiguous section it is refused for the id of the slot, of which
the repetition comes first. -/
theorem make_exact_nested :
    report.WellFormed ∧ (∀ category, report.Distinct category) ∧
      (⟨"report", sections ++ [ambiguous]⟩ : Report).WellFormed ∧
      (⟨"report", sections ++ [ambiguous]⟩ : Report).FirstRepeated .cell "nightRate" := by
  obtain ⟨hok, -⟩ := Report.make_exact "report" sections wellFormed
  obtain ⟨-, -, hdistinct⟩ := (hok report).1 rfl
  obtain ⟨-, herror⟩ := Report.make_exact "report" (sections ++ [ambiguous]) wellFormed_ambiguous
  have hrefused := (herror (.duplicateId .cell "nightRate")).1 rfl
  refine ⟨wellFormed, hdistinct, wellFormed_ambiguous, ?_⟩
  rcases hrefused with ⟨-, heq⟩ | ⟨-, _, _, _, _, -, -, hfirst, heq⟩
  · cases heq
  · cases heq
    exact hfirst

end Nested

end ReportCalc
