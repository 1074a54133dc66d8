import Mathlib.Algebra.BigOperators.Group.List.Basic
import ReportCalc.Proofs.Report.Building
import ReportCalc.Proofs.Report.Declaration

/-!
# The width of rows

A table is made when all of its rows are as wide as it has columns, and otherwise the first row of
another width, in the order of declaration, stops the construction. The width of a row is the
natural sum of its spans (`Row.width`); what is computed is a sum of words, which is the width as
long as that fits a word (`Row.span?_eq_some_iff`). So the table is refused with an error that names
the row, unless the row is so wide that the sum does not fit (`Table.make_rectangular`): then the
program ends without an error (`Wide.make_overflow_wide`). Either way no table is made.
-/

namespace ReportCalc

namespace Row

/-- The columns that the cells of the row take up, added as natural numbers. -/
def width (row : Row) : Nat := (row.cells.map (·.span.toNat)).sum

theorem addSpan?_eq_some_iff {total span sum : UInt64} :
    addSpan? total span = some sum ↔ total.toNat + span.toNat = sum.toNat := by
  have hsum (h : total.toNat + span.toNat < 2 ^ 64) :
      (total + span).toNat = total.toNat + span.toNat := by
    rw [UInt64.toNat_add, Nat.mod_eq_of_lt h]
  unfold addSpan?
  split
  · next h => rw [Option.some.injEq, ← UInt64.toNat_inj, hsum h]
  · next h => exact iff_of_false nofun fun heq => h (heq ▸ sum.toNat_lt)

/-- Spans are added as natural numbers. The sums only grow, so when the last one fits all do. -/
theorem foldlM_addSpan?_eq_some_iff {cells : List Cell} {total sum : UInt64} :
    cells.foldlM (fun total cell => addSpan? total cell.span) total = some sum ↔
      total.toNat + (cells.map (·.span.toNat)).sum = sum.toNat := by
  induction cells generalizing total with
  | nil => exact Option.some_inj.trans UInt64.toNat_inj.symm
  | cons cell cells ih =>
    rw [List.foldlM_cons, Option.bind_eq_bind, Option.bind_eq_some_iff, List.map_cons,
      List.sum_cons, ← Nat.add_assoc]
    simp only [addSpan?_eq_some_iff, ih]
    constructor
    · rintro ⟨next, hnext, hsum⟩
      rw [hnext, hsum]
    · intro hsum
      have hfits : total.toNat + cell.span.toNat < 2 ^ 64 :=
        Nat.lt_of_le_of_lt (hsum ▸ Nat.le_add_right ..) sum.toNat_lt
      have hnext := UInt64.toNat_ofNat_of_lt' hfits
      exact ⟨.ofNat _, hnext.symm, by rw [hnext, hsum]⟩

theorem span?_eq_some_iff {row : Row} {span : UInt64} :
    row.span? = some span ↔ row.width = span.toNat := by
  rw [span?, foldlM_addSpan?_eq_some_iff, UInt64.toNat_zero, Nat.zero_add, width]

theorem span?_eq_none_iff {row : Row} : row.span? = none ↔ 2 ^ 64 ≤ row.width := by
  rw [Option.eq_none_iff_forall_ne_some]
  constructor
  · intro h
    by_contra hfits
    have hwidth := UInt64.toNat_ofNat_of_lt' (Nat.lt_of_not_le hfits)
    exact h _ (span?_eq_some_iff.2 hwidth.symm)
  · intro h span hspan
    exact absurd (span?_eq_some_iff.1 hspan ▸ span.toNat_lt) (Nat.not_lt.2 h)

end Row

namespace Table

/-- The row is the first one of the table, in the order of declaration, that has the property. -/
def IsFirst (t : Table) (P : Row → Prop) (row : Row) : Prop :=
  ∃ band path, t.row? band path = some row ∧ P row ∧
    ∀ band' path' other, t.row? band' path' = some other →
      Before (band', path') (band, path) → ¬P other

variable {t : Table} {P : Row → Prop} {row : Row}

theorem isFirst_iff : t.IsFirst P row ↔
    ∃ before after, t.allRows = before ++ row :: after ∧ (∀ other ∈ before, ¬P other) ∧ P row := by
  rw [← t.map_rows]
  constructor
  · rintro ⟨band, path, hrow, hP, hfirst⟩
    obtain ⟨before, after, hrows, hbefore, -⟩ :=
      (t.inOrder_rows.first_iff (P := fun place => P place.2)).2
        ⟨mem_rows_iff.2 hrow, hP, fun place hplace => hfirst _ _ _ (mem_rows_iff.1 hplace)⟩
    refine ⟨before.map Prod.snd, after.map Prod.snd, ?_, List.forall_mem_map.2 hbefore, hP⟩
    rw [hrows, List.map_append, List.map_cons]
  · rintro ⟨before, after, hrows, hbefore, hP⟩
    obtain ⟨places, ⟨band, path⟩, after, hplaces, rfl⟩ := exists_of_map_snd_eq hrows
    obtain ⟨hmem, -, hfirst⟩ := (t.inOrder_rows.first_iff (P := fun place => P place.2)).1
      ⟨places, after, hplaces, fun place hplace => hbefore _ (List.mem_map_of_mem hplace), hP⟩
    exact ⟨band, path, mem_rows_iff.1 hmem, hP, fun band' path' other hother =>
      hfirst ((band', path'), other) (mem_rows_iff.2 hother)⟩

/-- The rows of a table are the ones that navigation finds in it. -/
theorem mem_allRows_iff : row ∈ t.allRows ↔ ∃ band path, t.row? band path = some row := by
  rw [← t.map_rows, List.mem_map]
  constructor
  · rintro ⟨⟨⟨band, path⟩, row⟩, hmem, rfl⟩
    exact ⟨band, path, mem_rows_iff.1 hmem⟩
  · rintro ⟨band, path, hrow⟩
    exact ⟨((band, path), row), mem_rows_iff.2 hrow, rfl⟩

/-! ## Construction -/

section
variable {columns : Nat}

theorem checkRow_eq : checkRow columns row =
    if row.width < 2 ^ 64 then
      if row.width = columns then .ok ()
      else .error (.refused (.rowSpanMismatch row.id columns row.width))
    else .error .overflow := by
  rw [checkRow]
  cases hrow : row.span? with
  | none => rw [if_neg (Nat.not_lt.2 (Row.span?_eq_none_iff.1 hrow))]
  | some span => rw [Row.span?_eq_some_iff.1 hrow, if_pos span.toNat_lt]

theorem checkRow_eq_ok_iff (h : columns < 2 ^ 64) :
    checkRow columns row = .ok () ↔ row.width = columns := by
  rw [checkRow_eq]
  split
  · split
    · next hwidth => exact iff_of_true rfl hwidth
    · next hwidth => exact iff_of_false nofun hwidth
  · next hwide => exact iff_of_false nofun fun hwidth => hwide (hwidth ▸ h)

theorem checkRow_eq_refused_iff {e : ConstructionError} :
    checkRow columns row = .error (.refused e) ↔
      row.width ≠ columns ∧ row.width < 2 ^ 64 ∧ e = .rowSpanMismatch row.id columns row.width := by
  rw [checkRow_eq]
  split
  · next hfits =>
    split
    · next hwidth => exact iff_of_false nofun fun h => h.1 hwidth
    · next hwidth =>
      rw [Except.error.injEq, Failure.refused.injEq]
      exact ⟨fun h => ⟨hwidth, hfits, h.symm⟩, fun h => h.2.2.symm⟩
  · next hwide => exact iff_of_false nofun fun h => hwide h.2.1

theorem checkRow_eq_overflow_iff :
    checkRow columns row = .error .overflow ↔ 2 ^ 64 ≤ row.width := by
  rw [checkRow_eq]
  split
  · next hfits =>
    refine iff_of_false ?_ (Nat.not_le.2 hfits)
    split <;> nofun
  · next hwide => exact iff_of_true rfl (Nat.le_of_not_lt hwide)

end

theorem make_eq (t : Table) :
    make t.columns t.header t.body t.footer =
      t.allRows.forM (checkRow t.columns.length) >>= fun _ => .ok t := rfl

theorem make_eq_ok_iff (h : t.columns.length < 2 ^ 64) {u : Table} :
    make t.columns t.header t.body t.footer = .ok u ↔
      u = t ∧ ∀ band path row, t.row? band path = some row → row.width = t.columns.length := by
  have hrows : t.allRows.forM (checkRow t.columns.length) = .ok () ↔
      ∀ band path row, t.row? band path = some row → row.width = t.columns.length := by
    simp only [forM_eq_ok_iff, checkRow_eq_ok_iff h, mem_allRows_iff]
    exact ⟨fun h band path row hrow => h row ⟨band, path, hrow⟩,
      fun h row ⟨band, path, hrow⟩ => h band path row hrow⟩
  rw [make_eq, check_eq_ok_iff, hrows]

/-- What stops the construction is the first row of another width. -/
theorem make_eq_error_iff (h : t.columns.length < 2 ^ 64) {failure : Failure} :
    make t.columns t.header t.body t.footer = .error failure ↔
      ∃ row, t.IsFirst (·.width ≠ t.columns.length) row ∧
        checkRow t.columns.length row = .error failure := by
  rw [make_eq, check_eq_error_iff, forM_eq_error_iff]
  simp only [isFirst_iff, checkRow_eq_ok_iff h, not_not]
  constructor
  · rintro ⟨before, row, after, hrows, hbefore, hrow⟩
    have hwidth : row.width ≠ t.columns.length := fun heq => by
      cases hrow.symm.trans ((checkRow_eq_ok_iff h).2 heq)
    exact ⟨row, ⟨before, after, hrows, hbefore, hwidth⟩, hrow⟩
  · rintro ⟨row, ⟨before, after, hrows, hbefore, -⟩, hrow⟩
    exact ⟨before, row, after, hrows, hbefore, hrow⟩

/-- A table with fewer than `2 ^ 64` columns, as any list in memory has, is made when every row, at
whatever depth, is as wide as it has columns. Otherwise the first row of another width, in the order
of declaration, stops the construction: as long as its width fits a word the table is refused with
an error that names the row, and a row of `2 ^ 64` columns or more ends the program instead. -/
theorem make_rectangular (t : Table) (h : t.columns.length < 2 ^ 64) :
    (∀ u, make t.columns t.header t.body t.footer = .ok u ↔
      u = t ∧ ∀ band path row, t.row? band path = some row → row.width = t.columns.length) ∧
    (∀ e, make t.columns t.header t.body t.footer = .error (.refused e) ↔
      ∃ row, t.IsFirst (·.width ≠ t.columns.length) row ∧ row.width < 2 ^ 64 ∧
        e = .rowSpanMismatch row.id t.columns.length row.width) ∧
    (make t.columns t.header t.body t.footer = .error .overflow ↔
      ∃ row, t.IsFirst (·.width ≠ t.columns.length) row ∧ 2 ^ 64 ≤ row.width) := by
  refine ⟨fun u => make_eq_ok_iff h, fun e => ?_, ?_⟩
  · rw [make_eq_error_iff h]
    refine exists_congr fun row => and_congr_right fun ⟨_, _, _, hwidth, _⟩ => ?_
    rw [checkRow_eq_refused_iff]
    exact and_iff_right hwidth
  · rw [make_eq_error_iff h]
    exact exists_congr fun row => and_congr_right fun _ => checkRow_eq_overflow_iff

end Table

/-! ## Rows of extreme widths -/

namespace Wide

def column : Column := ⟨"column", ""⟩

/-- A row with two empty cells of these spans. -/
def row (id : String) (first second : UInt64) : Row :=
  ⟨id, [.ofSpan first, .ofSpan second], [], none, none⟩

/-- A row of one column with a wider one as its summary. -/
def top : Row := ⟨"top", [.ofSpan 1], [], some (row "summary" 1 1), none⟩

/-- A row that is wider than a word can count. -/
def wide : Row := row "wide" 18446744073709551615 2

def table : Table := ⟨[column], [], [top, wide], []⟩

/-- Of two rows that are too wide the one in the summary is declared first. -/
theorem make_rectangular_nested :
    table.columns.length < 2 ^ 64 ∧ table.IsFirst (·.width ≠ 1) (row "summary" 1 1) ∧
      Table.make [column] [] [top, wide] [] =
        .error (.refused (.rowSpanMismatch "summary" 1 (row "summary" 1 1).width)) := by
  have hcolumns : table.columns.length < 2 ^ 64 := by decide
  have hrows : table.allRows = [top] ++ row "summary" 1 1 :: [wide] := rfl
  have hfirst : table.IsFirst (·.width ≠ 1) (row "summary" 1 1) :=
    Table.isFirst_iff.2 ⟨_, _, hrows, by decide, by decide⟩
  obtain ⟨-, hrefused, -⟩ := table.make_rectangular hcolumns
  exact ⟨hcolumns, hfirst, (hrefused _).2 ⟨_, hfirst, by decide, rfl⟩⟩

/-- A table of which the only row is wider than a word can count is not refused with an error that
names the row: the program ends. -/
theorem make_overflow_wide :
    wide.width = 2 ^ 64 + 1 ∧ Table.make [column] [] [wide] [] = .error .overflow :=
  ⟨by decide, rfl⟩

end Wide

end ReportCalc
