import ReportCalc.Proofs.Evaluation.Errors
import ReportCalc.Proofs.Operation.Typing

/-!
# Computing with values of the right kinds

On values of the kinds that they ask for, comparisons have a result, and arithmetic has one of the
declared kind unless it is out of range. The errors that are left are ordinary ones
(`EvaluationError.isOrdinary`), which come from data and not from a mistake in types.
-/

namespace ReportCalc

variable {α : Type}

/-! ## Ordinary errors -/

/-- The errors that do not come from kinds that do not fit: locators without a meaning, signals,
missing values, arithmetic without a result, and operations outside of their phases. -/
def EvaluationError.isOrdinary : EvaluationError → Bool
  | .sectionNotFound _ | .cellNotFound .. | .notSlotted .. | .slotNotFound .. | .slotIdRequired _
  | .aborted _ | .notApplicable _ | .valueMissing .. | .divisionByZero | .overflow _
  | .wrongPhase .. => true
  | _ => false

/-- The computation gives a value with the property, or fails with an ordinary error. -/
abbrev Sound (P : α → Prop) (x : Except EvaluationError α) : Prop :=
  Yields (·.isOrdinary = true) P x

/-! ## Expected values -/

variable {k : Kind} {v w : Value}

theorem expectBool_of_admits (hv : Kind.bool.admits v = true) (context : String) :
    ∃ b, expectBool v context = .ok b := by
  have hscalar := Kind.admits_scalar_iff.1 hv
  cases v with
  | bool b => exact ⟨b, rfl⟩
  | _ => cases hscalar

theorem expectText_of_admits (hk : k.Fits (.optional .text)) (hv : k.admits v = true)
    (context : String) : ∃ text, expectText v context = .ok text := by
  rcases Kind.admits_optional_iff.1 (hk.admits hv) with rfl | hscalar
  · exact ⟨none, rfl⟩
  · cases v with
    | text s => exact ⟨some s, rfl⟩
    | _ => cases hscalar

theorem ValidationStep.decide_of_admits {step : ValidationStep Operation}
    (hv : step.conditionKind.admits v = true) :
    ∃ holds fallback, step.decide v = .ok (step.action holds, fallback) := by
  cases step with
  | check c t e =>
    obtain ⟨b, hb⟩ := expectBool_of_admits hv "validation condition"
    exact ⟨b, none, by rw [decide, hb]; rfl⟩
  | checkWithMessage c t e =>
    cases v with
    | boolWithMessage holds message => exact ⟨holds, message, rfl⟩
    | _ => cases hv

/-- Values of numeric scalars are numbers. -/
theorem Value.exists_number {s : Scalar} (hv : v.scalar? = some s) (hs : s.isNumeric = true) :
    (∃ i, v = .int i) ∨ ∃ d, v = .decimal d := by
  cases v with
  | int i => exact .inl ⟨i, rfl⟩
  | decimal d => exact .inr ⟨d, rfl⟩
  | _ => cases hv <;> cases hs

/-! ## Comparison -/

theorem Value.equalityOnly_eq_ok {c : Comparison} (hc : c.isOrder = false) (equal : Bool)
    (typeName : String) : ∃ b, equalityOnly equal typeName c = .ok b := by
  cases c with
  | eq | ne => exact ⟨_, rfl⟩
  | _ => cases hc

/-- Values of scalars that can be compared have a comparison. -/
theorem Value.compare_of_scalar? {c : Comparison} {s t : Scalar} (hv : v.scalar? = some s)
    (hw : w.scalar? = some t) (hst : s = t ∨ s.isNumeric = true ∧ t.isNumeric = true)
    (horder : c.isOrder = true → s.isOrdered = true) : ∃ b, v.compare w c = .ok b := by
  have equality (hs : s.isOrdered = false) (equal : Bool) (typeName : String) :
      ∃ b, equalityOnly equal typeName c = .ok b := by
    refine equalityOnly_eq_ok ?_ equal typeName
    cases hc : c.isOrder with
    | false => rfl
    | true => exact absurd (horder hc) (by simp [hs])
  rcases hst with rfl | ⟨hs, ht⟩
  · cases v <;> cases hv <;> cases w <;> cases hw
    all_goals first
      | exact ⟨_, rfl⟩
      | exact equality rfl _ _
  · rcases exists_number hv hs with ⟨i, rfl⟩ | ⟨d, rfl⟩ <;>
      rcases exists_number hw ht with ⟨j, rfl⟩ | ⟨e, rfl⟩ <;>
      exact ⟨_, rfl⟩

theorem Value.compare_of_admits {c : Comparison} {k' : Kind} (h : c.Takes k k')
    (hv : k.admits v = true) (hw : k'.admits w = true) : ∃ b, v.compare w c = .ok b := by
  obtain ⟨s, t, hs, ht, hst⟩ := h.scalars
  cases hc : c.isOrder with
  | true =>
    obtain ⟨s', t', rfl, rfl, hordered, -⟩ := h.order hc
    cases hs
    cases ht
    exact compare_of_scalar? (Kind.admits_scalar_iff.1 hv) (Kind.admits_scalar_iff.1 hw) hst
      fun _ => hordered
  | false =>
    rcases Kind.scalar?_of_admits hs hv with rfl | hv
    · exact equalityOnly_eq_ok hc _ _
    · rcases Kind.scalar?_of_admits ht hw with rfl | hw
      · have hnull : v.compare .null c = equalityOnly (v.isNull && Value.null.isNull) "Null" c := by
          cases v <;> rfl
        rw [hnull]
        exact equalityOnly_eq_ok hc _ _
      · exact compare_of_scalar? hv hw hst fun h => absurd h (by simp [hc])

/-! ## Arithmetic -/

/-- Whether the value enters into arithmetic of the scalar: it is an integer, or of the scalar. -/
def Value.CountsAs (s : Scalar) (v : Value) : Prop := v.scalar? = some .int ∨ v.scalar? = some s

theorem Kind.Takes.countsAs {s : Scalar} {k' : Kind} (h : k.Takes k') (hs : k.scalar? = some s)
    (hv : k'.admits v = true) : v = .null ∨ v.CountsAs s := by
  rcases h with hint | hsame
  · exact (scalar?_of_admits hint hv).imp_right .inl
  · exact (scalar?_of_admits (hsame.trans hs) hv).imp_right .inr

namespace Value.CountsAs

variable {s : Scalar}

theorem exists_number (h : v.CountsAs s) (hs : s.isNumeric = true) :
    (∃ i, v = .int i) ∨ ∃ d, v = .decimal d := by
  rcases h with h | h
  · exact Value.exists_number h rfl
  · exact Value.exists_number h hs

/-- A decimal only counts as one. -/
theorem eq_decimal {d : Decimal} (h : (Value.decimal d).CountsAs s) : s = .decimal := by
  rcases h with h | h <;> cases h
  rfl

end Value.CountsAs

namespace Arithmetic

variable {op : Arithmetic} {s : Scalar} {kind : Kind}

theorem onInts_sound (l r : Int64) : Sound (fun _ => True) (op.onInts l r) := by
  unfold onInts
  split
  · exact .error rfl
  · split
    · exact .ok trivial
    · exact .error rfl

theorem onDecimals_sound (l r : Decimal) : Sound (fun _ => True) (op.onDecimals l r) := by
  unfold onDecimals
  split
  · exact .error rfl
  · split
    · exact .ok trivial
    · exact .error rfl

theorem apply_sound (hl : v.CountsAs s) (hr : w.CountsAs s) (hs : s.isNumeric = true) :
    Sound (Value.CountsAs s) (op.apply v w) := by
  rcases hl.exists_number hs with ⟨i, rfl⟩ | ⟨d, rfl⟩ <;>
    rcases hr.exists_number hs with ⟨j, rfl⟩ | ⟨e, rfl⟩
  · exact (onInts_sound i j).map fun _ _ => .inl rfl
  · cases hr.eq_decimal
    exact (onDecimals_sound _ e).map fun _ _ => .inr rfl
  · cases hl.eq_decimal
    exact (onDecimals_sound d _).map fun _ _ => .inr rfl
  · cases hl.eq_decimal
    exact (onDecimals_sound d e).map fun _ _ => .inr rfl

/-- A number of the scalar conforms to every kind with the scalar. -/
theorem admits_conform (hk : kind.scalar? = some s) (hs : s.isNumeric = true)
    (hv : v.CountsAs s) : kind.admits (conform v kind) = true := by
  refine Kind.admits_of_scalar? hk ?_
  rcases hv.exists_number hs with ⟨i, rfl⟩ | ⟨d, rfl⟩
  · unfold conform
    rw [hk]
    cases s <;> first | rfl | cases hs
  · cases hv.eq_decimal
    rfl

variable (hk : kind.scalar? = some s) (hs : s.isNumeric = true)
include hs

theorem foldFrom_sound (hv : v.CountsAs s) {rest : List Value}
    (hrest : ∀ w ∈ rest, w.CountsAs s) : Sound (Value.CountsAs s) (op.foldFrom v rest) := by
  induction rest generalizing v with
  | nil => exact .ok hv
  | cons w rest ih =>
    refine (apply_sound hv (hrest w (List.mem_cons_self ..)) hs).bind fun u hu => ?_
    exact ih hu fun x hx => hrest x (List.mem_cons_of_mem _ hx)

include hk

/-- A fold over numbers, of which some may be absent, gives a value of the declared kind. -/
theorem fold_sound {values : List Value} (hvalues : ∀ v ∈ values, v = .null ∨ v.CountsAs s) :
    Sound (kind.admits · = true) (op.fold values kind) := by
  have counts : ∀ v ∈ values.filter (!·.isNull), v.CountsAs s := by
    intro v hv
    obtain ⟨hmem, hnull⟩ := List.mem_filter.1 hv
    refine (hvalues v hmem).resolve_left ?_
    rintro rfl
    cases hnull
  unfold fold
  split
  · split
    · next hoptional => exact .ok (Kind.admits_null hoptional)
    · exact .ok (admits_conform hk hs (.inl rfl))
  · next first rest hfilter =>
    rw [hfilter] at counts
    refine (foldFrom_sound hs (counts first (List.mem_cons_self ..)) fun v hv =>
      counts v (List.mem_cons_of_mem _ hv)).bind fun v hv => ?_
    exact .ok (admits_conform hk hs hv)

/-- Two numbers combine to a value of the declared kind; an absent one needs an optional kind. -/
theorem binary_sound (hl : v = .null ∨ v.CountsAs s) (hr : w = .null ∨ w.CountsAs s)
    (hnull : (v.isNull || w.isNull) = true → kind.isOptional = true) :
    Sound (kind.admits · = true) (op.binary v w kind) := by
  unfold binary
  split
  · next h => exact .ok (Kind.admits_null (hnull h))
  · next h =>
    have hl := hl.resolve_left fun heq => h (by simp [heq, Value.isNull])
    have hr := hr.resolve_left fun heq => h (by simp [heq, Value.isNull])
    exact (apply_sound hl hr hs).bind fun u hu => .ok (admits_conform hk hs hu)

end Arithmetic

end ReportCalc
