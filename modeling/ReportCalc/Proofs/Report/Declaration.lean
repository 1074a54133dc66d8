import Mathlib.Data.List.Lex
import Mathlib.Order.RelClasses
import ReportCalc.Proofs.Report.Traversal

/-!
# The order of declaration

Rows are declared band by band, each before the rows nested in it, and these are declared in the
order of the steps that lead to them (`Table.Before`); cells are declared row by row, each before
its slots (`CellAddress.Before`). `Row.descendants` and `Row.entries` both follow this order: the
one lists the rows of `Row.places`, which has every row below a row once, with its path and in
order, and the other lists the cells of these rows. So the rows and the cells of a report are listed
in order of their places (`Report.inOrder_rows`, `Report.inOrder_cells`), and what is first in the
list is first in the order (`InOrder.first_iff`).
-/

namespace ReportCalc

/-! ## Lists in the order of places -/

/-- The entries of the list are in the order of their places. -/
def InOrder {κ α : Type} (before : κ → κ → Prop) (entries : List (κ × α)) : Prop :=
  entries.Pairwise fun x y => before x.1 y.1

namespace InOrder

variable {κ α : Type} {before : κ → κ → Prop}

/-- In a list in order the entries before an entry are the ones at the places before its place. -/
theorem before_iff_mem [Std.Asymm before] {pre post : List (κ × α)} {x y : κ × α}
    (h : InOrder before (pre ++ x :: post)) (hy : y ∈ pre ++ x :: post) :
    before y.1 x.1 ↔ y ∈ pre := by
  obtain ⟨-, hpost, hpre⟩ := List.pairwise_append.1 h
  constructor
  · intro hbefore
    rcases List.mem_append.1 hy with hmem | hmem
    · exact hmem
    · rcases List.mem_cons.1 hmem with rfl | hmem
      · exact absurd hbefore (Std.Asymm.asymm _ _ hbefore)
      · exact absurd hbefore (Std.Asymm.asymm _ _ ((List.pairwise_cons.1 hpost).1 y hmem))
  · intro hmem
    exact hpre y hmem x (List.mem_cons_self ..)

/-- In a list in order the first entry with a property is the one at the first place. -/
theorem first_iff [Std.Asymm before] {entries : List (κ × α)} (h : InOrder before entries)
    {P : κ × α → Prop} {x : κ × α} :
    (∃ pre post, entries = pre ++ x :: post ∧ (∀ y ∈ pre, ¬P y) ∧ P x) ↔
      x ∈ entries ∧ P x ∧ ∀ y ∈ entries, before y.1 x.1 → ¬P y := by
  constructor
  · rintro ⟨pre, post, rfl, hpre, hx⟩
    refine ⟨List.mem_append_right _ (List.mem_cons_self ..), hx, fun y hy hbefore => ?_⟩
    exact hpre y ((h.before_iff_mem hy).1 hbefore)
  · rintro ⟨hmem, hx, hfirst⟩
    obtain ⟨pre, post, rfl⟩ := List.append_of_mem hmem
    refine ⟨pre, post, rfl, fun y hy => ?_, hx⟩
    have hmem : y ∈ pre ++ x :: post := List.mem_append_left _ hy
    exact hfirst y hmem ((h.before_iff_mem hmem).2 hy)

end InOrder

/-- Where a list of values splits, the entries that they come from split. -/
theorem exists_of_map_snd_eq {κ α : Type} {entries : List (κ × α)} {pre post : List α} {a : α}
    (h : entries.map Prod.snd = pre ++ a :: post) :
    ∃ before p after, entries = before ++ (p, a) :: after ∧ before.map Prod.snd = pre := by
  obtain ⟨before, _, rfl, hbefore, hrest⟩ := List.map_eq_append_iff.1 h
  obtain ⟨⟨p, _⟩, after, rfl, rfl, -⟩ := List.map_eq_cons_iff.1 hrest
  exact ⟨before, p, after, rfl, hbefore⟩

theorem pairwise_zipIdx {α : Type} (items : List α) :
    items.zipIdx.Pairwise fun x y => x.2 < y.2 := by
  have indices : (items.zipIdx.map Prod.snd).Pairwise (· < ·) := by
    rw [List.zipIdx_map_snd]
    exact List.pairwise_lt_range'
  exact List.pairwise_map.1 indices

theorem map_eq_zipIdx {α β : Type} (items : List α) (f : α → β) :
    items.map f = items.zipIdx.map fun (a, _) => f a := by
  conv_lhs => rw [← List.zipIdx_map_fst 0 items, List.map_map]
  rfl

theorem flatMap_eq_zipIdx {α β : Type} (items : List α) (f : α → List β) :
    items.flatMap f = items.zipIdx.flatMap fun (a, _) => f a := by
  conv_lhs => rw [← List.zipIdx_map_fst 0 items, List.flatMap_map]

/-! ## Places -/

/-- The order of the rows below a row: its children by their indexes, then the summary for the
expanded and the one for the collapsed state. -/
inductive RowStep.Before : RowStep → RowStep → Prop
  | child {i j : Nat} (h : i < j) : Before (.child i) (.child j)
  | expandedSummary {i : Nat} : Before (.child i) .expandedSummary
  | collapsedSummary {i : Nat} : Before (.child i) .collapsedSummary
  | summaries : Before .expandedSummary .collapsedSummary

/-- Header, body, footer. -/
inductive Band.Before : Band → Band → Prop
  | headerBody : Before .header .body
  | headerFooter : Before .header .footer
  | bodyFooter : Before .body .footer

/-- The order of the rows of a table by their bands and paths. A row comes before the ones nested in
it, whose paths continue its own. -/
abbrev Table.Before : Band × List RowStep → Band × List RowStep → Prop :=
  Prod.Lex Band.Before (List.Lex RowStep.Before)

/-- The order of the rows of a report. -/
inductive RowPosition.Before : RowPosition → RowPosition → Prop
  | sections {p q : RowPosition} (h : p.sectionIndex < q.sectionIndex) : Before p q
  | table {p q : RowPosition} (hsection : p.sectionIndex = q.sectionIndex)
      (h : Table.Before (p.band, p.path) (q.band, q.path)) : Before p q

/-- The order of the cells of a report: by rows, in a row by indexes, and a cell before its slots,
which come in the order of their ids. -/
inductive CellAddress.Before : CellAddress → CellAddress → Prop
  | rows {a b : CellAddress} (h : a.row.Before b.row) : Before a b
  | cells {p : RowPosition} {i j : Nat} {s t : Option String} (h : i < j) :
      Before ⟨p, i, s⟩ ⟨p, j, t⟩
  | container {p : RowPosition} {i : Nat} {t : String} : Before ⟨p, i, none⟩ ⟨p, i, some t⟩
  | slots {p : RowPosition} {i : Nat} {s t : String} (h : s < t) :
      Before ⟨p, i, some s⟩ ⟨p, i, some t⟩

instance : Std.Asymm RowStep.Before where
  asymm s t h h' := by
    cases h with
    | child h =>
      cases h' with
      | child h' => exact Nat.lt_asymm h h'
    | _ => cases h'

instance : Std.Asymm Band.Before where
  asymm b c h h' := by cases h <;> cases h'

instance : Std.Asymm Table.Before where
  asymm x y h h' := by
    cases h with
    | left path path' h =>
      cases h' with
      | left _ _ h' => exact Std.Asymm.asymm _ _ h h'
      | right _ h' => exact Std.Asymm.asymm _ _ h h
    | right b h =>
      cases h' with
      | left _ _ h' => exact Std.Asymm.asymm _ _ h' h'
      | right _ h' => exact Std.Asymm.asymm _ _ h h'

instance : Std.Asymm RowPosition.Before where
  asymm p q h h' := by
    cases h with
    | sections h =>
      cases h' with
      | sections h' => exact Nat.lt_asymm h h'
      | table hsection => exact Nat.lt_irrefl _ (hsection ▸ h)
    | table hsection h =>
      cases h' with
      | sections h' => exact Nat.lt_irrefl _ (hsection ▸ h')
      | table _ h' => exact Std.Asymm.asymm _ _ h h'

instance : Std.Asymm CellAddress.Before where
  asymm a b h h' := by
    have irrefl (p : RowPosition) : ¬p.Before p := fun hp => Std.Asymm.asymm _ _ hp hp
    cases h with
    | rows h =>
      cases h' with
      | rows h' => exact Std.Asymm.asymm _ _ h h'
      | _ => exact irrefl _ h
    | cells h =>
      cases h' with
      | rows h' => exact irrefl _ h'
      | cells h' => exact Nat.lt_asymm h h'
      | _ => exact Nat.lt_irrefl _ h
    | container =>
      cases h' with
      | rows h' => exact irrefl _ h'
      | cells h' => exact Nat.lt_irrefl _ h'
    | slots h =>
      cases h' with
      | rows h' => exact irrefl _ h'
      | cells h' => exact Nat.lt_irrefl _ h'
      | slots h' => exact String.lt_asymm h h'

/-! ## The rows of a row -/

namespace Row

/-- The rows to which steps from a row lead, in order. -/
def nested (row : Row) : List (RowStep × Row) :=
  (row.children.zipIdx.map fun (child, i) => (.child i, child)) ++
    row.expanded.toList.map (.expandedSummary, ·) ++ row.collapsed.toList.map (.collapsedSummary, ·)

/-- The place of a row, seen from a row from which a step leads to where the place begins. -/
def placeBelow (s : RowStep) (place : List RowStep × Row) : List RowStep × Row :=
  (s :: place.1, place.2)

mutual

/-- The row and every row nested in it, each with its path, in order. -/
def places : Row → List (List RowStep × Row)
  | ⟨id, cells, children, expanded, collapsed⟩ =>
    ([], ⟨id, cells, children, expanded, collapsed⟩) :: (placesOfList 0 children ++
      placesOfOption .expandedSummary expanded ++ placesOfOption .collapsedSummary collapsed)

/-- The places of rows below a row, which are numbered from an index on. -/
def placesOfList : Nat → List Row → List (List RowStep × Row)
  | _, [] => []
  | i, row :: rest => (places row).map (placeBelow (.child i)) ++ placesOfList (i + 1) rest

def placesOfOption (s : RowStep) : Option Row → List (List RowStep × Row)
  | none => []
  | some row => (places row).map (placeBelow s)

end

variable {row target : Row} {p : RowPosition} {path : List RowStep}

theorem mem_nested_iff {s : RowStep} : (s, target) ∈ row.nested ↔ row.step? s = some target := by
  cases s <;> simp [nested, step?, List.mem_zipIdx_iff_getElem?]

theorem inOrder_nested (row : Row) : InOrder RowStep.Before row.nested := by
  have children : InOrder RowStep.Before
      (row.children.zipIdx.map fun (child, i) => (RowStep.child i, child)) :=
    List.pairwise_map.2 ((pairwise_zipIdx row.children).imp .child)
  refine List.pairwise_append.2 ⟨List.pairwise_append.2 ⟨children, ?_, ?_⟩, ?_, ?_⟩
  · cases row.expanded <;> simp
  · intro x hx y hy
    obtain ⟨_, -, rfl⟩ := List.mem_map.1 hx
    obtain ⟨_, -, rfl⟩ := List.mem_map.1 hy
    exact .expandedSummary
  · cases row.collapsed <;> simp
  · intro x hx y hy
    obtain ⟨_, -, rfl⟩ := List.mem_map.1 hy
    rcases List.mem_append.1 hx with hx | hx
    · obtain ⟨_, -, rfl⟩ := List.mem_map.1 hx
      exact .collapsedSummary
    · obtain ⟨_, -, rfl⟩ := List.mem_map.1 hx
      exact .summaries

/-! ### One list for the three sorts of nested rows -/

theorem placesOfList_eq {rows : List Row} {start : Nat} :
    placesOfList start rows =
      (rows.zipIdx start).flatMap fun (row, i) => row.places.map (placeBelow (.child i)) := by
  induction rows generalizing start with
  | nil => rfl
  | cons row rest ih => simp [placesOfList, ih]

theorem descendantsOfList_eq {rows : List Row} :
    descendantsOfList rows = rows.flatMap descendants := by
  induction rows with
  | nil => rfl
  | cons row rest ih => simp [descendantsOfList, ih]

theorem places_eq (row : Row) :
    row.places = ([], row) :: row.nested.flatMap fun (s, r) => r.places.map (placeBelow s) := by
  obtain ⟨id, cells, children, expanded, collapsed⟩ := row
  cases expanded <;> cases collapsed <;>
    simp [places, nested, placesOfOption, placesOfList_eq, List.flatMap_map]

theorem descendants_eq (row : Row) :
    row.descendants = row :: row.nested.flatMap fun (_, r) => r.descendants := by
  obtain ⟨id, cells, children, expanded, collapsed⟩ := row
  cases expanded <;> cases collapsed <;>
    simp [descendants, nested, descendantsOfOption, descendantsOfList_eq,
      flatMap_eq_zipIdx children, List.flatMap_map]

theorem entries_eq (p : RowPosition) (row : Row) :
    row.entries p =
      cellEntries p 0 row.cells ++ row.nested.flatMap fun (s, r) => r.entries (p.step s) := by
  obtain ⟨id, cells, children, expanded, collapsed⟩ := row
  cases expanded <;> cases collapsed <;>
    simp [entries, nested, entriesOfOption, entriesOfList_eq, List.flatMap_map]

/-! ### What the places are -/

/-- The places of a row are the paths from it, with the rows at their ends. -/
theorem mem_places_iff : (path, target) ∈ row.places ↔ row.descend? path = some target := by
  induction row using Row.induction generalizing path with
  | row row ih =>
    rw [places_eq, List.mem_cons, List.mem_flatMap]
    cases path with
    | nil =>
      constructor
      · rintro (heq | ⟨_, -, hmem⟩)
        · cases heq
          rfl
        · obtain ⟨_, -, heq⟩ := List.mem_map.1 hmem
          cases heq
      · intro h
        cases h
        exact .inl rfl
    | cons s path =>
      rw [descend?, Option.bind_eq_some_iff]
      constructor
      · rintro (heq | ⟨⟨_, below⟩, hbelow, hmem⟩)
        · cases heq
        · obtain ⟨_, hplace, heq⟩ := List.mem_map.1 hmem
          cases heq
          have hstep := mem_nested_iff.1 hbelow
          exact ⟨below, hstep, (ih s below hstep).1 hplace⟩
      · rintro ⟨below, hstep, htarget⟩
        refine .inr ⟨(s, below), mem_nested_iff.2 hstep, List.mem_map.2 ⟨(path, target), ?_, rfl⟩⟩
        exact (ih s below hstep).2 htarget

theorem inOrder_places (row : Row) : InOrder (List.Lex RowStep.Before) row.places := by
  induction row using Row.induction with
  | row row ih =>
    rw [places_eq]
    refine List.pairwise_cons.2 ⟨fun place hmem => ?_, List.pairwise_flatMap.2 ⟨?_, ?_⟩⟩
    · obtain ⟨_, -, hmem⟩ := List.mem_flatMap.1 hmem
      obtain ⟨_, -, rfl⟩ := List.mem_map.1 hmem
      exact .nil
    · rintro ⟨s, below⟩ hbelow
      exact List.pairwise_map.2 ((ih s below (mem_nested_iff.1 hbelow)).imp .cons)
    · refine (inOrder_nested row).imp fun hbefore x hx y hy => ?_
      obtain ⟨_, -, rfl⟩ := List.mem_map.1 hx
      obtain ⟨_, -, rfl⟩ := List.mem_map.1 hy
      exact .rel hbefore

/-- The descendants of a row are the rows of its places. -/
theorem map_places (row : Row) : row.places.map Prod.snd = row.descendants := by
  induction row using Row.induction with
  | row row ih =>
    rw [places_eq, descendants_eq, List.map_cons, List.map_flatMap]
    refine congrArg (row :: ·) (List.flatMap_congr fun ⟨s, below⟩ hbelow => ?_)
    dsimp only
    rw [← ih s below (mem_nested_iff.1 hbelow), List.map_map]
    rfl

/-- The entries of a row are the cells of the rows of its places. -/
theorem flatMap_places (p : RowPosition) (row : Row) :
    (row.places.flatMap fun place => cellEntries (p.descend place.1) 0 place.2.cells) =
      row.entries p := by
  induction row using Row.induction generalizing p with
  | row row ih =>
    rw [places_eq, entries_eq, List.flatMap_cons, List.flatMap_assoc]
    dsimp only
    rw [RowPosition.descend_nil]
    refine congrArg (_ ++ ·) (List.flatMap_congr fun ⟨s, below⟩ hbelow => ?_)
    dsimp only
    rw [← ih s below (mem_nested_iff.1 hbelow), List.flatMap_map]
    simp only [placeBelow, RowPosition.descend_step]

end Row

/-! ## The rows of a table -/

namespace Table

/-- Every row of the table with its band and path, in order. -/
def rows (t : Table) : List ((Band × List RowStep) × Row) :=
  Band.all.flatMap fun band =>
    (Row.placesOfList 0 (t.band band)).map fun place => ((band, place.1), place.2)

variable {t : Table} {band : Band} {path : List RowStep} {row : Row}

theorem mem_rows_iff : ((band, path), row) ∈ t.rows ↔ t.row? band path = some row := by
  rw [row?_eq_some_iff, rows, List.mem_flatMap]
  constructor
  · rintro ⟨_, -, hmem⟩
    obtain ⟨place, hplace, heq⟩ := List.mem_map.1 hmem
    cases heq
    rw [Row.placesOfList_eq] at hplace
    obtain ⟨⟨top, i⟩, htop, hplace⟩ := List.mem_flatMap.1 hplace
    obtain ⟨⟨rest, below⟩, hbelow, rfl⟩ := List.mem_map.1 hplace
    exact ⟨i, rest, top, rfl, List.mem_zipIdx_iff_getElem?.1 htop, Row.mem_places_iff.1 hbelow⟩
  · rintro ⟨i, rest, top, rfl, htop, hrow⟩
    refine ⟨band, band.mem_all, List.mem_map.2 ⟨(.child i :: rest, row), ?_, rfl⟩⟩
    rw [Row.placesOfList_eq]
    refine List.mem_flatMap.2 ⟨(top, i), List.mem_zipIdx_iff_getElem?.2 htop, ?_⟩
    exact List.mem_map.2 ⟨(rest, row), Row.mem_places_iff.2 hrow, rfl⟩

theorem inOrder_placesOfList (rows : List Row) :
    InOrder (List.Lex RowStep.Before) (Row.placesOfList 0 rows) := by
  rw [Row.placesOfList_eq]
  refine List.pairwise_flatMap.2 ⟨?_, (pairwise_zipIdx rows).imp fun hlt x hx y hy => ?_⟩
  · rintro ⟨row, i⟩ -
    exact List.pairwise_map.2 ((Row.inOrder_places row).imp .cons)
  · obtain ⟨_, -, rfl⟩ := List.mem_map.1 hx
    obtain ⟨_, -, rfl⟩ := List.mem_map.1 hy
    exact .rel (.child hlt)

theorem inOrder_rows (t : Table) : InOrder Before t.rows := by
  have bands : Band.all.Pairwise Band.Before :=
    .cons (by simp [Band.Before.headerBody, Band.Before.headerFooter])
      (.cons (by simp [Band.Before.bodyFooter]) (.cons (by simp) .nil))
  refine List.pairwise_flatMap.2 ⟨fun band _ => ?_, bands.imp fun hbefore x hx y hy => ?_⟩
  · exact List.pairwise_map.2 ((inOrder_placesOfList (t.band band)).imp (.right band))
  · obtain ⟨_, -, rfl⟩ := List.mem_map.1 hx
    obtain ⟨_, -, rfl⟩ := List.mem_map.1 hy
    exact .left _ _ hbefore

theorem map_rows (t : Table) : t.rows.map Prod.snd = t.allRows := by
  rw [rows, allRows, List.map_flatMap]
  refine List.flatMap_congr fun band _ => ?_
  rw [List.map_map, Row.placesOfList_eq, List.map_flatMap, flatMap_eq_zipIdx (t.band band)]
  refine List.flatMap_congr fun ⟨row, i⟩ _ => ?_
  rw [List.map_map]
  exact row.map_places

end Table

/-! ## The rows and cells of a report -/

theorem Cell.inOrder_entries {cell : Cell} (hcell : cell.WellFormed) (p : RowPosition) (i : Nat) :
    InOrder CellAddress.Before (cell.entries ⟨p, i, none⟩) := by
  cases cell with
  | slotted c =>
    refine List.pairwise_cons.2 ⟨fun x hx => ?_, ?_⟩
    · obtain ⟨_, -, rfl⟩ := List.mem_map.1 hx
      exact .container
    · exact List.pairwise_map.2 ((List.pairwise_map.1 hcell).imp .slots)
  | _ => exact List.pairwise_singleton ..

theorem Row.inOrder_cellEntries {cells : List Cell} (h : ∀ cell ∈ cells, cell.WellFormed)
    (p : RowPosition) : InOrder CellAddress.Before (cellEntries p 0 cells) := by
  have place {cell : Cell} {i : Nat} {x : CellAddress × Cell}
      (hx : x ∈ cell.entries ⟨p, i, none⟩) : x.1 = ⟨p, i, x.1.slot⟩ := by
    obtain ⟨⟨p', i', slot⟩, c⟩ := x
    have hcontainer := Cell.container_of_mem_entries rfl (List.mem_map_of_mem hx)
    cases hcontainer
    rfl
  rw [cellEntries_eq]
  refine List.pairwise_flatMap.2 ⟨?_, (pairwise_zipIdx cells).imp fun hlt x hx y hy => ?_⟩
  · rintro ⟨cell, i⟩ hcell
    have hmem : cell ∈ cells := List.mem_of_getElem? (List.mem_zipIdx_iff_getElem?.1 hcell)
    exact Cell.inOrder_entries (h cell hmem) p i
  · rw [place hx, place hy]
    exact .cells hlt

namespace Report

/-- The row at a place. -/
def rowAt? (r : Report) (p : RowPosition) : Option Row :=
  r.sections[p.sectionIndex]?.bind fun s => s.table.row? p.band p.path

/-- Every row of the report with its place, in order. -/
def rows (r : Report) : List (RowPosition × Row) :=
  r.sections.zipIdx.flatMap fun (s, n) =>
    s.table.rows.map fun entry => (⟨n, entry.1.1, entry.1.2⟩, entry.2)

variable {r : Report} {p : RowPosition} {row : Row}

theorem mem_rows_iff : (p, row) ∈ r.rows ↔ r.rowAt? p = some row := by
  rw [rowAt?, Option.bind_eq_some_iff, rows, List.mem_flatMap]
  constructor
  · rintro ⟨⟨s, n⟩, hs, hmem⟩
    obtain ⟨⟨⟨band, path⟩, row⟩, hrow, heq⟩ := List.mem_map.1 hmem
    cases heq
    exact ⟨s, List.mem_zipIdx_iff_getElem?.1 hs, Table.mem_rows_iff.1 hrow⟩
  · rintro ⟨s, hs, hrow⟩
    refine ⟨(s, p.sectionIndex), List.mem_zipIdx_iff_getElem?.2 hs, ?_⟩
    exact List.mem_map.2 ⟨((p.band, p.path), row), Table.mem_rows_iff.2 hrow, rfl⟩

theorem inOrder_rows (r : Report) : InOrder RowPosition.Before r.rows := by
  refine List.pairwise_flatMap.2 ⟨?_, (pairwise_zipIdx r.sections).imp fun hlt x hx y hy => ?_⟩
  · rintro ⟨s, n⟩ -
    exact List.pairwise_map.2 (s.table.inOrder_rows.imp fun h => .table rfl h)
  · obtain ⟨_, -, rfl⟩ := List.mem_map.1 hx
    obtain ⟨_, -, rfl⟩ := List.mem_map.1 hy
    exact .sections hlt

theorem map_rows (r : Report) :
    r.rows.map Prod.snd = r.sections.flatMap fun s => s.table.allRows := by
  rw [rows, List.map_flatMap, flatMap_eq_zipIdx r.sections]
  refine List.flatMap_congr fun ⟨s, n⟩ _ => ?_
  rw [List.map_map]
  exact s.table.map_rows

/-- The cells of a report are the cells of its rows. -/
theorem flatMap_rows (r : Report) :
    (r.rows.flatMap fun entry => Row.cellEntries entry.1 0 entry.2.cells) = r.cells := by
  rw [rows, cells, Section.entriesOfList_eq, List.flatMap_assoc]
  refine List.flatMap_congr ?_
  rintro ⟨s, n⟩ -
  dsimp only
  rw [Section.entries, Table.rows, List.flatMap_map, List.flatMap_assoc]
  refine List.flatMap_congr fun band _ => ?_
  rw [List.flatMap_map, Row.placesOfList_eq, Row.entriesOfList_eq, List.flatMap_assoc]
  refine List.flatMap_congr ?_
  rintro ⟨row, i⟩ -
  rw [List.flatMap_map]
  exact row.flatMap_places ⟨n, band, [.child i]⟩

/-- The cells in the rows of a well-formed report are well-formed. -/
theorem WellFormed.of_mem_rows (h : r.WellFormed) (hrow : (p, row) ∈ r.rows) :
    ∀ cell ∈ row.cells, cell.WellFormed := by
  intro cell hcell
  obtain ⟨i, hi⟩ := List.mem_iff_getElem?.1 hcell
  have hmem : (⟨p, i, none⟩, cell) ∈ Row.cellEntries p 0 row.cells :=
    Row.mem_cellEntries_iff.2 ⟨i, cell, hi, cell.mem_entries_self _⟩
  refine h (⟨p, i, none⟩, cell) ?_
  rw [← flatMap_rows]
  exact List.mem_flatMap.2 ⟨(p, row), hrow, hmem⟩

theorem inOrder_cells (h : r.WellFormed) : InOrder CellAddress.Before r.cells := by
  rw [← flatMap_rows]
  refine List.pairwise_flatMap.2 ⟨?_, r.inOrder_rows.imp fun hbefore x hx y hy => ?_⟩
  · rintro ⟨p, row⟩ hrow
    exact Row.inOrder_cellEntries (h.of_mem_rows hrow) p
  · refine .rows ?_
    rwa [Row.row_eq_of_mem_cellEntries (List.mem_map_of_mem hx),
      Row.row_eq_of_mem_cellEntries (List.mem_map_of_mem hy)]

end Report

end ReportCalc
