import ReportCalc.Proofs.Decimal.Whole
import ReportCalc.Proofs.Value.Folding

/-!
# Promotion of integers

A fold of integers whose kind is a decimal one computes with 64-bit integers and makes the result a
decimal. To make every operand a decimal first comes to the same number, because decimals compute
exactly with whole numbers of 96 bits and every step of a fold that succeeds stays below that: the
two accumulators are the same integer after every operand (`Arithmetic.foldFrom_promoted`). So the
declared kind makes a difference only where a fold leaves the integers of 64 bits.
-/

namespace ReportCalc

/-- An integer as the decimal of the same number; all other values stay as they are. -/
def Value.promoted : Value → Value
  | .int i => .decimal (.ofInt64 i)
  | v => v

theorem Value.isNull_promoted (v : Value) : v.promoted.isNull = v.isNull := by cases v <;> rfl

namespace Arithmetic

variable {op : Arithmetic} {kind : Kind}

/-! ## One step -/

/-- Where the exact result of integers is one of 64 bits, decimals have it too. -/
theorem onDecimals?_of_exact {i j k : Int64} (hop : op ≠ .divide)
    (h : op.exact i.toInt j.toInt = k.toInt) :
    op.onDecimals? (.ofInt64 i) (.ofInt64 j) = some (.ofInt64 k) := by
  have hlt : (op.exact i.toInt j.toInt).natAbs < Decimal.limit := by
    rw [h]
    exact Decimal.natAbs_toInt_lt k
  have hresult : Decimal.ofInt _ hlt = .ofInt64 k := Decimal.ofInt_congr h
  rw [← hresult]
  cases op with
  | add => exact Decimal.add?_ofInt hlt
  | subtract => exact Decimal.sub?_ofInt hlt
  | multiply => exact Decimal.mul?_ofInt hlt
  | divide => exact absurd rfl hop

theorem onDecimals_of_exact {i j k : Int64} (hop : op ≠ .divide)
    (h : op.exact i.toInt j.toInt = k.toInt) :
    op.onDecimals (.ofInt64 i) (.ofInt64 j) = .ok (.ofInt64 k) := by
  have hdefined : ¬(op = .divide ∧ (Decimal.ofInt64 j).isZero = true) := fun hzero => hop hzero.1
  rw [onDecimals, if_neg hdefined, onDecimals?_of_exact hop h]

/-! ## All steps -/

theorem foldFrom_decimal (op : Arithmetic) (acc d : Decimal) (rest : List Value) :
    op.foldFrom (.decimal acc) (.decimal d :: rest) =
      op.onDecimals acc d >>= fun e => op.foldFrom (.decimal e) rest := by
  rw [foldFrom, apply]
  cases op.onDecimals acc d <;> rfl

/-- A fold of integers overflows, or a fold of the decimals of these integers comes to the decimal
of its result. The induction is on the operands that are left, with the same integer in both
accumulators. -/
theorem foldFrom_promoted (hop : op ≠ .divide) (acc : Int64) (rest : List Int64) :
    op.foldFrom (.int acc) (rest.map .int) =
        .error (.overflow ("integer " ++ op.display ++ " overflow")) ∨
      ∃ i, op.foldFrom (.int acc) (rest.map .int) = .ok (.int i) ∧
        op.foldFrom (.decimal (.ofInt64 acc)) ((rest.map .int).map .promoted) =
          .ok (.decimal (.ofInt64 i)) := by
  induction rest generalizing acc with
  | nil => exact .inr ⟨acc, rfl, rfl⟩
  | cons j rest ih =>
    obtain ⟨y, hstep⟩ : ∃ y, op.Step acc.toInt j.toInt y :=
      (zero_or_step op acc.toInt j.toInt).resolve_left fun hzero => hop hzero.1
    rw [List.map_cons, foldFrom_int]
    by_cases hy : InRange y
    · obtain ⟨next, hnext, rfl⟩ := onInts_of_inRange hstep hy
      have hdecimal := onDecimals_of_exact hop hstep.exact_eq
      rw [hnext, List.map_cons, Value.promoted, foldFrom_decimal, hdecimal]
      exact ih next
    · rw [onInts_of_not_inRange hstep hy]
      exact .inl rfl

/-! ## Folds -/

theorem filter_promoted (operands : List Value) :
    (operands.map Value.promoted).filter (!·.isNull) =
      (operands.filter (!·.isNull)).map Value.promoted := by
  rw [List.filter_map]
  congr 2
  funext v
  exact congrArg (!·) v.isNull_promoted

/-- A sum, difference or product of integers that is declared a decimal fails only where it leaves
the integers of 64 bits. Where it does not, it is the one of the decimals of these integers. -/
theorem fold_promoted (op : Arithmetic) (hop : op ≠ .divide) (kind : Kind)
    (hkind : kind.scalar? = some .decimal) (operands : List (Option Int64)) :
    op.fold (operands.map .ofInt?) kind =
        .error (.overflow ("integer " ++ op.display ++ " overflow")) ∨
      ∃ v, op.fold (operands.map .ofInt?) kind = .ok v ∧
        op.fold ((operands.map .ofInt?).map .promoted) kind = .ok v := by
  have hints := filter_ofInt? operands
  have hdecimals := filter_promoted (operands.map .ofInt?)
  rw [hints] at hdecimals
  cases hoperands : operands.reduceOption with
  | nil =>
    rw [hoperands] at hints hdecimals
    exact .inr ⟨_, fold_of_none hints, fold_of_none hdecimals⟩
  | cons first rest =>
    rw [hoperands] at hints hdecimals
    rw [fold_of_first hints, fold_of_first hdecimals]
    rcases foldFrom_promoted hop first rest with hoverflow | ⟨i, hint, hdecimal⟩
    · rw [hoverflow]
      exact .inl rfl
    · have hconform : conform (.int i) kind = .decimal (.ofInt64 i) := by
        unfold conform
        rw [hkind]
      refine .inr ⟨.decimal (.ofInt64 i), ?_, ?_⟩
      · rw [hint, ← hconform]
        rfl
      · rw [Value.promoted, hdecimal]
        rfl

/-- The product of two and three is six both ways, and the sum of the highest integer and one is out
of range only for integers. -/
theorem fold_promoted_limits :
    fold .multiply ([some 2, none, some 3].map .ofInt?) (.optional .decimal) =
        .ok (.decimal (.ofInt64 6)) ∧
      fold .multiply (([some 2, none, some 3].map .ofInt?).map .promoted) (.optional .decimal) =
        .ok (.decimal (.ofInt64 6)) ∧
      fold .add ([some Int64.maxValue, some 1].map .ofInt?) (.scalar .decimal) =
        .error (.overflow "integer addition overflow") := by
  have hproduct : fold .multiply ([some 2, none, some 3].map .ofInt?) (.optional .decimal) =
      .ok (.decimal (.ofInt64 6)) := rfl
  refine ⟨hproduct, ?_, ?_⟩
  · rcases fold_promoted .multiply nofun (.optional .decimal) rfl [some 2, none, some 3] with
      hoverflow | ⟨v, hint, hdecimal⟩
    · cases hproduct.symm.trans hoverflow
    · rw [hdecimal, ← hint, hproduct]
  · rcases fold_promoted .add nofun (.scalar .decimal) rfl [some Int64.maxValue, some 1] with
      hoverflow | ⟨v, hint, -⟩
    · exact hoverflow
    · cases hint

end Arithmetic

end ReportCalc
