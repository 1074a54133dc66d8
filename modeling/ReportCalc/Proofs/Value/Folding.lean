import Mathlib.Algebra.BigOperators.Group.List.Basic
import Mathlib.Algebra.Ring.Int.Defs
import Mathlib.Data.List.Induction
import Mathlib.Data.List.ReduceOption
import ReportCalc.Value.Arithmetic

/-!
# Folds of integers

A fold of 64-bit integers computes from left to right and checks every step. So it is exact or it
fails: `Arithmetic.Reaches` is the computation with integers of any size whose steps all have a
result in range, and a fold gives its last result, or the error of the first operand that it cannot
take in (`Arithmetic.fold_eq_iff`). Whether a sum or a product succeeds may depend on the order of
its operands, its value does not (`Arithmetic.Reaches.eq_sum`, `Arithmetic.Reaches.eq_prod`).
-/

namespace ReportCalc

/-- An integer operand, or an absent one. -/
def Value.ofInt? : Option Int64 → Value
  | some i => .int i
  | none => .null

namespace Arithmetic

variable {op : Arithmetic} {kind : Kind}

/-! ## Exact computations -/

/-- The exact result of an operation on integers of any size. A quotient is cut off toward zero, and
there is none by zero. -/
inductive Step : Arithmetic → Int → Int → Int → Prop
  | add {l r : Int} : Step .add l r (l + r)
  | subtract {l r : Int} : Step .subtract l r (l - r)
  | multiply {l r : Int} : Step .multiply l r (l * r)
  | divide {l r : Int} (h : r ≠ 0) : Step .divide l r (l.tdiv r)

/-- The integers of 64 bits. -/
def InRange (x : Int) : Prop := -2 ^ 63 ≤ x ∧ x < 2 ^ 63

instance : DecidablePred InRange := fun _ => inferInstanceAs (Decidable (_ ∧ _))

/-- The exact computation from left to right comes to a number after these operands, and every step
up to there has a result, which is in range. -/
inductive Reaches (op : Arithmetic) (first : Int) : List Int → Int → Prop
  | start : Reaches op first [] first
  | step {done : List Int} {x r y : Int} (h : Reaches op first done x) (hstep : op.Step x r y)
      (hrange : InRange y) : Reaches op first (done ++ [r]) y

/-- What a fold of integers comes to: the exact result, or the error of the first step that divides
by zero or leaves the range. -/
inductive FoldsTo (op : Arithmetic) (first : Int) (rest : List Int) :
    Except EvaluationError Value → Prop
  | exact {i : Int64} (h : op.Reaches first rest i.toInt) : FoldsTo op first rest (.ok (.int i))
  | divisionByZero {done left : List Int} {x : Int} (hrest : rest = done ++ 0 :: left)
      (h : op.Reaches first done x) (hop : op = .divide) :
      FoldsTo op first rest (.error .divisionByZero)
  | overflow {done left : List Int} {x r y : Int} (hrest : rest = done ++ r :: left)
      (h : op.Reaches first done x) (hstep : op.Step x r y) (hrange : ¬InRange y) :
      FoldsTo op first rest (.error (.overflow ("integer " ++ op.display ++ " overflow")))

/-! ## One step -/

variable {x r y z : Int}

theorem Step.exact_eq (h : op.Step x r y) : op.exact x r = y := by cases h <;> rfl

theorem Step.unique (h : op.Step x r y) (h' : op.Step x r z) : y = z :=
  h.exact_eq.symm.trans h'.exact_eq

theorem not_step_zero : ¬Step .divide x 0 y := by
  intro h
  cases h with
  | divide h => exact h rfl

/-- Only a division by zero has no result. -/
theorem zero_or_step (op : Arithmetic) (x r : Int) :
    op = .divide ∧ r = 0 ∨ ∃ y, op.Step x r y := by
  cases op with
  | add => exact .inr ⟨_, .add⟩
  | subtract => exact .inr ⟨_, .subtract⟩
  | multiply => exact .inr ⟨_, .multiply⟩
  | divide =>
    by_cases hr : r = 0
    · exact .inl ⟨rfl, hr⟩
    · exact .inr ⟨_, .divide hr⟩

theorem int64?_of_inRange (h : InRange x) : ∃ i, int64? x = some i ∧ i.toInt = x := by
  obtain ⟨hlow, hhigh⟩ := h
  have hbounds : Int64.minValue.toInt ≤ x ∧ x ≤ Int64.maxValue.toInt := by
    rw [Int64.toInt_minValue, Int64.toInt_maxValue]
    omega
  refine ⟨.ofInt x, if_pos hbounds, ?_⟩
  exact Int64.toInt_ofInt_of_le hlow hhigh

theorem int64?_of_not_inRange (h : ¬InRange x) : int64? x = none := by
  refine if_neg fun hbounds => h ?_
  rw [Int64.toInt_minValue, Int64.toInt_maxValue] at hbounds
  unfold InRange
  omega

variable {l i : Int64}

theorem onInts_of_step (h : op.Step l.toInt i.toInt y) {j : Option Int64}
    (hj : int64? y = j) : op.onInts l i =
      j.elim (.error (.overflow ("integer " ++ op.display ++ " overflow"))) .ok := by
  have hzero : ¬(op = .divide ∧ i = 0) := by
    rintro ⟨rfl, rfl⟩
    exact not_step_zero h
  rw [onInts, if_neg hzero, h.exact_eq, hj]
  cases j <;> rfl

theorem onInts_of_inRange (h : op.Step l.toInt i.toInt y) (hy : InRange y) :
    ∃ j, op.onInts l i = .ok j ∧ j.toInt = y := by
  obtain ⟨j, hj, hjy⟩ := int64?_of_inRange hy
  exact ⟨j, onInts_of_step h hj, hjy⟩

theorem onInts_of_not_inRange (h : op.Step l.toInt i.toInt y) (hy : ¬InRange y) :
    op.onInts l i = .error (.overflow ("integer " ++ op.display ++ " overflow")) :=
  onInts_of_step h (int64?_of_not_inRange hy)

theorem onInts_zero (l : Int64) (hi : i.toInt = 0) :
    onInts .divide l i = .error .divisionByZero := by
  have hzero : i = 0 := Int64.toInt_inj.1 hi
  rw [onInts, if_pos ⟨rfl, hzero⟩]

/-! ## All steps -/

namespace Reaches

variable {first : Int} {done more : List Int}

theorem eq_first (h : op.Reaches first [] y) : y = first := by
  generalize hnil : ([] : List Int) = operands at h
  cases h with
  | start => rfl
  | step => simp at hnil

theorem exists_step (h : op.Reaches first (done ++ [r]) y) :
    ∃ x, op.Reaches first done x ∧ op.Step x r y ∧ InRange y := by
  generalize hdone : done ++ [r] = operands at h
  cases h with
  | start => simp at hdone
  | step h hstep hrange =>
    obtain ⟨rfl, hr⟩ := List.append_inj' hdone rfl
    cases hr
    exact ⟨_, h, hstep, hrange⟩

theorem unique (h : op.Reaches first done y) (h' : op.Reaches first done z) : y = z := by
  induction h generalizing z with
  | start => exact h'.eq_first.symm
  | step _ hstep _ ih =>
    obtain ⟨x, hx, hstep', -⟩ := h'.exists_step
    cases ih hx
    exact hstep.unique hstep'

/-- A computation that gets through operands gets through the first ones of them. -/
theorem of_append (h : op.Reaches first (done ++ more) y) : ∃ x, op.Reaches first done x := by
  induction more using List.reverseRecOn generalizing y with
  | nil => exact ⟨y, by simpa using h⟩
  | append_singleton more r ih =>
    rw [← List.append_assoc] at h
    obtain ⟨x, hx, -, -⟩ := h.exists_step
    exact ih hx

theorem eq_sum (h : Reaches .add first done y) : y = (first :: done).sum := by
  induction h with
  | start => simp
  | step _ hstep _ ih =>
    cases hstep
    simp only [ih, List.sum_cons, List.sum_append, List.sum_nil, add_zero, add_assoc]

theorem eq_prod (h : Reaches .multiply first done y) : y = (first :: done).prod := by
  induction h with
  | start => simp
  | step _ hstep _ ih =>
    cases hstep
    simp only [ih, List.prod_cons, List.prod_append, List.prod_nil, mul_one, mul_assoc]

end Reaches

/-- The computation gets through the operands up to one that has no result in range. -/
def Blocked (op : Arithmetic) (first : Int) (done : List Int) (r : Int) : Prop :=
  ∃ x, op.Reaches first done x ∧ ∀ y, op.Step x r y → ¬InRange y

namespace Blocked

variable {first r' : Int} {done done' left left' : List Int}

theorem not_reaches (h : op.Blocked first done r) : ¬op.Reaches first (done ++ r :: left) y := by
  obtain ⟨x, hx, hblocked⟩ := h
  intro hreaches
  rw [List.append_cons] at hreaches
  obtain ⟨y, hy⟩ := hreaches.of_append
  obtain ⟨x', hx', hstep, hrange⟩ := hy.exists_step
  cases hx.unique hx'
  exact hblocked y hstep hrange

/-- There is only one operand at which a computation is blocked. -/
theorem unique (h : op.Blocked first done r) (h' : op.Blocked first done' r')
    (heq : done ++ r :: left = done' ++ r' :: left') : done = done' ∧ r = r' := by
  have ⟨_, hx, _⟩ := h
  have ⟨_, hx', _⟩ := h'
  rcases List.append_eq_append_iff.1 heq with ⟨more, rfl, hmore⟩ | ⟨more, rfl, hmore⟩
  · cases more with
    | nil => exact ⟨by simp, (List.cons.inj hmore).1⟩
    | cons s more =>
      cases hmore
      exact absurd hx' h.not_reaches
  · cases more with
    | nil => exact ⟨by simp, (List.cons.inj hmore).1.symm⟩
    | cons s more =>
      cases hmore
      exact absurd hx h'.not_reaches

end Blocked

namespace FoldsTo

variable {first : Int} {rest : List Int} {result result' : Except EvaluationError Value}

theorem error_cases {e : EvaluationError} (h : op.FoldsTo first rest (.error e)) :
    ∃ done r left, rest = done ++ r :: left ∧ op.Blocked first done r ∧
      (e = .divisionByZero ∧ op = .divide ∧ r = 0 ∨
        e = .overflow ("integer " ++ op.display ++ " overflow") ∧ ¬(op = .divide ∧ r = 0)) := by
  cases h with
  | divisionByZero hrest h hop =>
    subst hop
    exact ⟨_, _, _, hrest, ⟨_, h, fun _ hstep => absurd hstep not_step_zero⟩, .inl ⟨rfl, rfl, rfl⟩⟩
  | overflow hrest h hstep hrange =>
    refine ⟨_, _, _, hrest, ⟨_, h, fun z hz => hstep.unique hz ▸ hrange⟩, .inr ⟨rfl, ?_⟩⟩
    rintro ⟨rfl, rfl⟩
    exact not_step_zero hstep

theorem unique (h : op.FoldsTo first rest result) (h' : op.FoldsTo first rest result') :
    result = result' := by
  cases result with
  | ok v =>
    cases h with
    | exact h =>
      cases result' with
      | ok w =>
        cases h' with
        | exact h' => rw [Int64.toInt_inj.1 (h.unique h')]
      | error e =>
        obtain ⟨done, r, left, rfl, hblocked, -⟩ := h'.error_cases
        exact absurd h hblocked.not_reaches
  | error e =>
    obtain ⟨done, r, left, rfl, hblocked, he⟩ := h.error_cases
    cases result' with
    | ok w =>
      cases h' with
      | exact h' => exact absurd h' hblocked.not_reaches
    | error e' =>
      obtain ⟨done', r', left', heq, hblocked', he'⟩ := h'.error_cases
      obtain ⟨-, rfl⟩ := hblocked.unique hblocked' heq
      rcases he with ⟨rfl, hzero⟩ | ⟨rfl, hzero⟩ <;> rcases he' with ⟨rfl, hzero'⟩ | ⟨rfl, hzero'⟩
      · rfl
      · exact absurd hzero hzero'
      · exact absurd hzero' hzero
      · rfl

end FoldsTo

/-! ## Folds -/

theorem foldFrom_int (op : Arithmetic) (acc i : Int64) (rest : List Value) :
    op.foldFrom (.int acc) (.int i :: rest) =
      op.onInts acc i >>= fun j => op.foldFrom (.int j) rest := by
  rw [foldFrom, apply]
  cases op.onInts acc i <;> rfl

/-- A fold that has come to a number goes on as the exact computation does. The induction is on the
operands that are left. -/
theorem foldsTo_foldFrom {first : Int} {done : List Int} {acc : Int64} {rest : List Int64}
    (h : op.Reaches first done acc.toInt) : op.FoldsTo first (done ++ rest.map Int64.toInt)
      (op.foldFrom (.int acc) (rest.map .int)) := by
  induction rest generalizing acc done with
  | nil =>
    rw [List.map_nil, List.append_nil]
    exact .exact h
  | cons i rest ih =>
    rw [List.map_cons (f := Value.int), foldFrom_int]
    rcases zero_or_step op acc.toInt i.toInt with ⟨rfl, hi⟩ | ⟨y, hstep⟩
    · rw [onInts_zero acc hi]
      exact .divisionByZero (by rw [List.map_cons, hi]) h rfl
    · by_cases hy : InRange y
      · obtain ⟨j, hj, rfl⟩ := onInts_of_inRange hstep hy
        rw [hj, List.map_cons, List.append_cons]
        exact ih (h.step hstep hy)
      · rw [onInts_of_not_inRange hstep hy]
        exact .overflow rfl h hstep hy

theorem filter_ofInt? (operands : List (Option Int64)) :
    (operands.map Value.ofInt?).filter (!·.isNull) = operands.reduceOption.map .int := by
  induction operands with
  | nil => rfl
  | cons o operands ih =>
    cases o with
    | none =>
      rw [List.reduceOption_cons_of_none, ← ih]
      rfl
    | some i =>
      rw [List.reduceOption_cons_of_some, List.map_cons, List.map_cons, ← ih]
      rfl

/-- Only the operands that are not absent count. -/
theorem fold_eq_of_filter_eq {xs ys : List Value}
    (h : xs.filter (!·.isNull) = ys.filter (!·.isNull)) : op.fold xs kind = op.fold ys kind := by
  rw [fold, fold, h]

theorem fold_of_first {operands : List Value} {first : Value} {rest : List Value}
    (h : operands.filter (!·.isNull) = first :: rest) :
    op.fold operands kind = (op.foldFrom first rest).map (conform · kind) := by
  rw [fold, h]
  dsimp only
  cases op.foldFrom first rest <;> rfl

theorem fold_of_none {operands : List Value} (h : operands.filter (!·.isNull) = []) :
    op.fold operands kind =
      .ok (if kind.isOptional then .null else conform (.int op.identity) kind) := by
  rw [fold, h]

theorem conform_of_int (hkind : kind.scalar? = some .int) (v : Value) : conform v kind = v := by
  unfold conform
  rw [hkind]
  cases v <;> rfl

variable {operands xs ys : List (Option Int64)} {first : Int64} {rest : List Int64}

/-- A fold of integers is exact, or fails with the first step that is not. -/
theorem fold_eq_iff (hkind : kind.scalar? = some .int)
    (hints : operands.reduceOption = first :: rest) (result : Except EvaluationError Value) :
    op.fold (operands.map .ofInt?) kind = result ↔
      op.FoldsTo first.toInt (rest.map Int64.toInt) result := by
  have hfold : op.fold (operands.map .ofInt?) kind =
      op.foldFrom (.int first) (rest.map .int) := by
    have hfilter := filter_ofInt? operands
    rw [hints, List.map_cons] at hfilter
    rw [fold_of_first hfilter]
    cases op.foldFrom (.int first) (rest.map .int) with
    | ok v => exact congrArg Except.ok (conform_of_int hkind v)
    | error e => rfl
  have hrun : op.FoldsTo first.toInt (rest.map Int64.toInt)
      (op.foldFrom (.int first) (rest.map .int)) := foldsTo_foldFrom .start
  rw [hfold]
  constructor
  · rintro rfl
    exact hrun
  · exact hrun.unique

theorem fold_absent (hkind : kind.scalar? = some .int) (hnone : operands.reduceOption = []) :
    op.fold (operands.map .ofInt?) kind =
      .ok (if kind.isOptional then .null else .int (if op = .multiply then 1 else 0)) := by
  have hfilter := filter_ofInt? operands
  rw [hnone, List.map_nil] at hfilter
  rw [fold_of_none hfilter, conform_of_int hkind]
  cases op <;> rfl

/-- Sums and products do not depend on the order of the operands, if they succeed. -/
theorem FoldsTo.eq_of_perm {first' : Int64} {rest' : List Int64} {v w : Value}
    (hop : op = .add ∨ op = .multiply) (hperm : (first :: rest).Perm (first' :: rest'))
    (h : op.FoldsTo first.toInt (rest.map Int64.toInt) (.ok v))
    (h' : op.FoldsTo first'.toInt (rest'.map Int64.toInt) (.ok w)) : v = w := by
  have hperm := hperm.map Int64.toInt
  cases h with
  | exact h =>
    cases h' with
    | exact h' =>
      refine congrArg Value.int (Int64.toInt_inj.1 ?_)
      rcases hop with rfl | rfl
      · rw [h.eq_sum, h'.eq_sum]
        exact hperm.sum_eq
      · rw [h.eq_prod, h'.eq_prod]
        exact hperm.prod_eq

theorem fold_eq_of_perm (hop : op = .add ∨ op = .multiply) (hkind : kind.scalar? = some .int)
    (hperm : xs.Perm ys) {v w : Value} (hv : op.fold (xs.map .ofInt?) kind = .ok v)
    (hw : op.fold (ys.map .ofInt?) kind = .ok w) : v = w := by
  have hints : xs.reduceOption.Perm ys.reduceOption := hperm.filterMap id
  cases hxs : xs.reduceOption with
  | nil =>
    have hys : ys.reduceOption = [] := by
      rw [hxs] at hints
      exact hints.nil_eq.symm
    rw [fold_absent hkind hxs] at hv
    rw [fold_absent hkind hys] at hw
    exact Except.ok.inj (hv.symm.trans hw)
  | cons first rest =>
    rw [hxs] at hints
    cases hys : ys.reduceOption with
    | nil =>
      rw [hys] at hints
      cases hints.eq_nil
    | cons first' rest' =>
      rw [hys] at hints
      exact ((fold_eq_iff hkind hxs _).1 hv).eq_of_perm hop hints ((fold_eq_iff hkind hys _).1 hw)

/-- A fold leaves out absent operands. Over integers it is exact or it fails: it gives the result of
the exact computation when every step of it has a result in range, and else the error of the first
step that has none. Without integers it is absent for an optional kind and the identity for a plain
one. Sums and products that succeed do not depend on the order of their operands. -/
theorem fold_exact (op : Arithmetic) :
    (∀ kind xs ys, xs.filter (!·.isNull) = ys.filter (!·.isNull) →
      op.fold xs kind = op.fold ys kind) ∧
    ∀ kind : Kind, kind.scalar? = some .int →
      (∀ (operands : List (Option Int64)) first rest, operands.reduceOption = first :: rest →
        ∀ result, op.fold (operands.map .ofInt?) kind = result ↔
          op.FoldsTo first.toInt (rest.map Int64.toInt) result) ∧
      (∀ operands : List (Option Int64), operands.reduceOption = [] →
        op.fold (operands.map .ofInt?) kind =
          .ok (if kind.isOptional then .null else .int (if op = .multiply then 1 else 0))) ∧
      (op = .add ∨ op = .multiply → ∀ xs ys : List (Option Int64), xs.Perm ys → ∀ v w,
        op.fold (xs.map .ofInt?) kind = .ok v → op.fold (ys.map .ofInt?) kind = .ok w → v = w) := by
  refine ⟨fun kind xs ys => fold_eq_of_filter_eq, fun kind hkind => ⟨?_, ?_, ?_⟩⟩
  · intro operands first rest hints result
    exact fold_eq_iff hkind hints result
  · intro operands hnone
    exact fold_absent hkind hnone
  · intro hop xs ys hperm v w hv hw
    exact fold_eq_of_perm hop hkind hperm hv hw

/-- The lowest integer has no quotient by minus one in range, and a sum that passes the highest one
on the way has no other value when its operands come in an order in which it succeeds. -/
theorem fold_exact_limits :
    fold .divide ([none, some Int64.minValue, none, some (-1)].map .ofInt?) (.optional .int) =
        .error (.overflow "integer division overflow") ∧
      fold .add ([some Int64.maxValue, some (-1), none, some 1].map .ofInt?) (.scalar .int) =
        .ok (.int Int64.maxValue) ∧
      fold .add ([some (-1), none, some 1, some Int64.maxValue].map .ofInt?) (.scalar .int) ≠
        .ok (.int 0) ∧
      fold .multiply ([none].map .ofInt?) (.scalar .int) = .ok (.int 1) ∧
      fold .add [.null, .text "total"] .bool = fold .add [.text "total", .null] .bool := by
  obtain ⟨hnull, hadd⟩ := fold_exact .add
  obtain ⟨hdivide, -, -⟩ := (fold_exact .divide).2 (.optional .int) rfl
  obtain ⟨-, hmultiply, -⟩ := (fold_exact .multiply).2 (.scalar .int) rfl
  obtain ⟨hsum, -, hperm⟩ := hadd (.scalar .int) rfl
  have hsucceeds : FoldsTo .add Int64.maxValue.toInt [-1, 1] (.ok (.int Int64.maxValue)) := by
    have hminus : Reaches .add Int64.maxValue.toInt ([] ++ [-1]) (Int64.maxValue.toInt + -1) :=
      .step .start .add (by decide)
    have hone : Reaches .add Int64.maxValue.toInt ([-1] ++ [1]) (Int64.maxValue.toInt + -1 + 1) :=
      .step hminus .add (by decide)
    exact .exact hone
  have hvalue := (hsum [some Int64.maxValue, some (-1), none, some 1] _ _ rfl _).2 hsucceeds
  refine ⟨?_, hvalue, ?_, hmultiply [none] rfl, hnull _ _ _ rfl⟩
  · refine (hdivide [none, some Int64.minValue, none, some (-1)] _ _ rfl _).2 ?_
    have hrest : [Int64.toInt (-1)] = [] ++ Int64.toInt (-1) :: [] := rfl
    exact .overflow hrest .start (.divide (by decide)) (by decide)
  · intro hzero
    have horder : [some Int64.maxValue, some (-1), none, some 1].Perm
        [some (-1), none, some 1, some Int64.maxValue] := by decide
    cases hperm (.inl rfl) _ _ horder _ _ hvalue hzero

end Arithmetic

end ReportCalc
