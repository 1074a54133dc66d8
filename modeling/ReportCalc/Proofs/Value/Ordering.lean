import ReportCalc.Proofs.Decimal.Exact
import ReportCalc.Proofs.Evaluation.Errors
import ReportCalc.Proofs.Operation.Typing

/-!
# The order of values

Two values compare in one of three ways: by an order, by equality only, or not at all
(`Value.Compares`). What operators have to do with each other is read off that. Numbers compare as
the rational numbers that they stand for, integers and decimals alike, so that they are in one order
however the two are mixed (`Value.compare_exact`).
-/

namespace ReportCalc

/-! ## Operators -/

namespace Comparison

variable {α : Type} [LinearOrder α] (c : Comparison)

/-- What the operator says of two elements of an order. -/
def Relates (x y : α) : Prop :=
  match c with
  | .eq => x = y
  | .ne => x ≠ y
  | .lt => x < y
  | .le => x ≤ y
  | .gt => y < x
  | .ge => y ≤ x

instance (x y : α) : Decidable (c.Relates x y) :=
  match c with
  | .eq => inferInstanceAs (Decidable (x = y))
  | .ne => inferInstanceAs (Decidable (x ≠ y))
  | .lt => inferInstanceAs (Decidable (x < y))
  | .le => inferInstanceAs (Decidable (x ≤ y))
  | .gt => inferInstanceAs (Decidable (y < x))
  | .ge => inferInstanceAs (Decidable (y ≤ x))

theorem holds_compare_iff (x y : α) : c.holds (Ord.compare x y) = true ↔ c.Relates x y := by
  cases c with
  | eq => exact beq_iff_eq.trans compare_eq_iff_eq
  | ne => exact bne_iff_ne.trans (not_congr compare_eq_iff_eq)
  | lt => exact beq_iff_eq.trans compare_lt_iff_lt
  | le => exact bne_iff_ne.trans compare_le_iff_le
  | gt => exact beq_iff_eq.trans compare_gt_iff_gt
  | ge => exact bne_iff_ne.trans compare_ge_iff_ge

theorem holds_compare (x y : α) : c.holds (Ord.compare x y) = decide (c.Relates x y) :=
  Bool.eq_iff_iff.2 ((c.holds_compare_iff x y).trans decide_eq_true_iff.symm)

/-- The operator with the opposite answer. -/
def complement : Comparison → Comparison
  | .eq => .ne
  | .ne => .eq
  | .lt => .ge
  | .le => .gt
  | .gt => .le
  | .ge => .lt

/-- The operator that says the same when the operands are swapped. -/
def mirror : Comparison → Comparison
  | .eq => .eq
  | .ne => .ne
  | .lt => .gt
  | .le => .ge
  | .gt => .lt
  | .ge => .le

theorem holds_complement (o : Ordering) : c.complement.holds o = !c.holds o := by
  cases c <;> cases o <;> rfl

theorem holds_mirror (o : Ordering) : c.mirror.holds o.swap = c.holds o := by
  cases c <;> cases o <;> rfl

end Comparison

namespace Value

variable {l m r v : Value} {c : Comparison} {x y : ℚ}

/-! ## Numbers -/

/-- The rational number that a value stands for, if it is a number. -/
def number? : Value → Option ℚ
  | .int i => some i.toInt
  | .decimal d => some d.toRat
  | _ => none

theorem number?_eq_some_iff :
    v.number? = some x ↔
      (∃ i, v = .int i ∧ (i.toInt : ℚ) = x) ∨ ∃ d, v = .decimal d ∧ d.toRat = x := by
  cases v <;> simp [number?]

theorem compare_intCast (i j : Int) : Ord.compare i j = Ord.compare (i : ℚ) (j : ℚ) := by
  rw [← cmp_eq_compare, ← cmp_eq_compare, Int.cast_strictMono.cmp_map_eq]

/-- Integers and decimals compare as the numbers that they stand for. -/
theorem compare_of_number? (hl : l.number? = some x) (hr : r.number? = some y) (c : Comparison) :
    l.compare r c = .ok (c.holds (Ord.compare x y)) := by
  rcases number?_eq_some_iff.1 hl with ⟨i, rfl, rfl⟩ | ⟨d, rfl, rfl⟩ <;>
    rcases number?_eq_some_iff.1 hr with ⟨j, rfl, rfl⟩ | ⟨e, rfl, rfl⟩
  · rw [← compare_intCast]
    rfl
  · rw [← Decimal.toRat_ofInt64, ← Decimal.compare_eq_compare_toRat]
    rfl
  · rw [← Decimal.toRat_ofInt64, ← Decimal.compare_eq_compare_toRat]
    rfl
  · rw [← Decimal.compare_eq_compare_toRat]
    rfl

/-! ## The three ways to compare -/

/-- The values are two numbers, two dates or two date-times. -/
def HasOrder (l r : Value) : Prop :=
  (∃ x y, l.number? = some x ∧ r.number? = some y) ∨
    (∃ d e, l = .date d ∧ r = .date e) ∨ ∃ t u, l = .dateTime t ∧ r = .dateTime u

/-- One value is absent, or both are numbers or of the same scalar. -/
def HasEquality (l r : Value) : Prop :=
  l = .null ∨ r = .null ∨ (∃ x y, l.number? = some x ∧ r.number? = some y) ∨
    ∃ s, l.scalar? = some s ∧ r.scalar? = some s

theorem HasEquality.symm (h : HasEquality l r) : HasEquality r l := by
  rcases h with hl | hr | ⟨x, y, hl, hr⟩ | ⟨s, hl, hr⟩
  · exact .inr (.inl hl)
  · exact .inl hr
  · exact .inr (.inr (.inl ⟨y, x, hr, hl⟩))
  · exact .inr (.inr (.inr ⟨s, hr, hl⟩))

theorem HasOrder.hasEquality (h : HasOrder l r) : HasEquality l r := by
  rcases h with h | ⟨d, e, rfl, rfl⟩ | ⟨t, u, rfl, rfl⟩
  · exact .inr (.inr (.inl h))
  · exact .inr (.inr (.inr ⟨.date, rfl, rfl⟩))
  · exact .inr (.inr (.inr ⟨.dateTime, rfl, rfl⟩))

/-- All other values do not compare. -/
theorem compare_eq_error (h : ¬ HasEquality l r) (c : Comparison) :
    ∃ e, l.compare r c = .error e := by
  have absurdSame {s : Scalar} (hl : l.scalar? = some s) (hr : r.scalar? = some s) : False :=
    h (.inr (.inr (.inr ⟨s, hl, hr⟩)))
  have absurdNumbers {x y : ℚ} (hl : l.number? = some x) (hr : r.number? = some y) : False :=
    h (.inr (.inr (.inl ⟨x, y, hl, hr⟩)))
  fun_cases compare l r c with
  | case1 => exact absurd (.inl rfl) h
  | case2 => exact absurd (.inr (.inl rfl)) h
  | case3 | case4 | case5 | case6 => exact (absurdNumbers rfl rfl).elim
  | case7 | case8 | case9 | case10 | case11 => exact (absurdSame rfl rfl).elim
  | case12 => exact ⟨_, rfl⟩

/-- The ways in which two values compare, in both directions: by their order, by nothing more than
equality, or not at all. -/
inductive Compares (l r : Value) : Prop where
  | order (o : Ordering) (hpair : HasOrder l r) (forward : ∀ c, l.compare r c = .ok (c.holds o))
    (backward : ∀ c, r.compare l c = .ok (c.holds o.swap))
  | equality (equal : Bool) (typeName : String) (hpair : HasEquality l r) (hnone : ¬ HasOrder l r)
    (forward : ∀ c, l.compare r c = equalityOnly equal typeName c)
    (backward : ∀ c, r.compare l c = equalityOnly equal typeName c)
  | never (hnone : ¬ HasEquality l r) (forward : ∀ c, ∃ e, l.compare r c = .error e)
    (backward : ∀ c, ∃ e, r.compare l c = .error e)

theorem compares_of_hasOrder (h : HasOrder l r) : Compares l r := by
  have hpair := h
  rcases h with ⟨x, y, hl, hr⟩ | ⟨d, e, rfl, rfl⟩ | ⟨t, u, rfl, rfl⟩
  · refine .order (Ord.compare x y) hpair (compare_of_number? hl hr) fun c => ?_
    rw [compare_of_number? hr hl, Std.OrientedOrd.eq_swap]
  · refine .order (d.compare e) hpair (fun _ => rfl) fun c => ?_
    exact congrArg (fun o => Except.ok (c.holds o)) Std.OrientedOrd.eq_swap
  · refine .order (t.compare u) hpair (fun _ => rfl) fun c => ?_
    exact congrArg (fun o => Except.ok (c.holds o)) Std.OrientedOrd.eq_swap

/-- Values without an order that still have equality are an absent one and any other, or two truth
values, texts or identifiers. -/
theorem compares_of_not_hasOrder (h : HasEquality l r) (hnone : ¬ HasOrder l r) :
    Compares l r := by
  have hpair := h
  rcases h with rfl | rfl | h | ⟨s, hl, hr⟩
  · exact .equality r.isNull "Null" hpair hnone (fun _ => rfl) fun c => by cases r <;> rfl
  · exact .equality l.isNull "Null" hpair hnone (fun c => by cases l <;> rfl) fun _ => rfl
  · exact absurd (.inl h) hnone
  · cases l <;> cases hl <;> cases r <;> cases hr
    all_goals first
      | exact .equality _ _ hpair hnone (fun _ => rfl) fun c =>
          congrArg (equalityOnly · _ c) BEq.comm
      | exact absurd (.inl ⟨_, _, rfl, rfl⟩) hnone
      | exact absurd (.inr (.inl ⟨_, _, rfl, rfl⟩)) hnone
      | exact absurd (.inr (.inr ⟨_, _, rfl, rfl⟩)) hnone

theorem compares (l r : Value) : Compares l r := by
  by_cases horder : HasOrder l r
  · exact compares_of_hasOrder horder
  by_cases hpair : HasEquality l r
  · exact compares_of_not_hasOrder hpair horder
  · exact .never hpair (compare_eq_error hpair) (compare_eq_error fun h => hpair h.symm)

/-! ## Operators that belong together -/

theorem equalityOnly_complement (equal : Bool) (typeName : String) (c : Comparison) :
    (∃ b, equalityOnly equal typeName c = .ok b ∧
      equalityOnly equal typeName c.complement = .ok !b) ∨
    ∃ e e', equalityOnly equal typeName c = .error e ∧
      equalityOnly equal typeName c.complement = .error e' := by
  cases c with
  | eq => exact .inl ⟨_, rfl, rfl⟩
  | ne => exact .inl ⟨_, rfl, congrArg _ (Bool.not_not equal).symm⟩
  | _ => exact .inr ⟨_, _, rfl, rfl⟩

theorem equalityOnly_mirror (equal : Bool) (typeName : String) (c : Comparison) :
    (∃ b, equalityOnly equal typeName c = .ok b ∧
      equalityOnly equal typeName c.mirror = .ok b) ∨
    ∃ e e', equalityOnly equal typeName c = .error e ∧
      equalityOnly equal typeName c.mirror = .error e' := by
  cases c with
  | eq | ne => exact .inl ⟨_, rfl, rfl⟩
  | _ => exact .inr ⟨_, _, rfl, rfl⟩

/-- An operator and its complement give opposite answers, or none of them gives one. -/
theorem compare_complement (l r : Value) (c : Comparison) :
    (∃ b, l.compare r c = .ok b ∧ l.compare r c.complement = .ok !b) ∨
      ∃ e e', l.compare r c = .error e ∧ l.compare r c.complement = .error e' := by
  cases compares l r with
  | order o _ forward =>
    refine .inl ⟨c.holds o, forward c, ?_⟩
    rw [forward, c.holds_complement]
  | equality equal typeName _ _ forward =>
    simpa only [forward] using equalityOnly_complement equal typeName c
  | never _ forward =>
    obtain ⟨e, he⟩ := forward c
    obtain ⟨e', he'⟩ := forward c.complement
    exact .inr ⟨e, e', he, he'⟩

/-- Swapping the operands and mirroring the operator changes nothing. -/
theorem compare_mirror (l r : Value) (c : Comparison) :
    (∃ b, l.compare r c = .ok b ∧ r.compare l c.mirror = .ok b) ∨
      ∃ e e', l.compare r c = .error e ∧ r.compare l c.mirror = .error e' := by
  cases compares l r with
  | order o _ forward backward =>
    refine .inl ⟨c.holds o, forward c, ?_⟩
    rw [backward, c.holds_mirror]
  | equality equal typeName _ _ forward backward =>
    simpa only [forward, backward] using equalityOnly_mirror equal typeName c
  | never _ forward backward =>
    obtain ⟨e, he⟩ := forward c
    obtain ⟨e', he'⟩ := backward c.mirror
    exact .inr ⟨e, e', he, he'⟩

/-! ## When there is an answer -/

theorem equalityOnly_of_isOrder (hc : c.isOrder = true) (equal : Bool) (typeName : String) :
    ∃ e, equalityOnly equal typeName c = .error e := by
  cases c with
  | eq | ne => cases hc
  | _ => exact ⟨_, rfl⟩

/-- An operator that asks for an order has an answer exactly where there is one. -/
theorem compare_order_defined_iff (hc : c.isOrder = true) :
    (∃ b, l.compare r c = .ok b) ↔ HasOrder l r := by
  cases compares l r with
  | order o hpair forward => exact ⟨fun _ => hpair, fun _ => ⟨_, forward c⟩⟩
  | equality equal typeName _ hnone forward =>
    obtain ⟨e, he⟩ := equalityOnly_of_isOrder hc equal typeName
    simp [forward, he, hnone]
  | never hnone forward =>
    obtain ⟨e, he⟩ := forward c
    have hnone : ¬ HasOrder l r := fun h => hnone h.hasEquality
    simp [he, hnone]

theorem compare_eq_defined_iff : (∃ b, l.compare r .eq = .ok b) ↔ HasEquality l r := by
  cases compares l r with
  | order o hpair forward => exact ⟨fun _ => hpair.hasEquality, fun _ => ⟨_, forward .eq⟩⟩
  | equality equal typeName hpair _ forward => exact ⟨fun _ => hpair, fun _ => ⟨_, forward .eq⟩⟩
  | never hnone forward =>
    obtain ⟨e, he⟩ := forward .eq
    simp [he, hnone]

theorem compare_eq_of_same_scalar {s : Scalar} (hl : l.scalar? = some s)
    (hr : r.scalar? = some s) : l.compare r .eq = .ok (l == r) := by
  have ints (i j : Int64) : (Ord.compare i.toInt j.toInt == .eq) = (i == j) :=
    Bool.eq_iff_iff.2 (beq_iff_eq.trans <| compare_eq_iff_eq.trans <| Int64.toInt_inj.trans
      beq_iff_eq.symm)
  have dates (d e : Date) : (d.compare e == .eq) = (d == e) := by
    refine Bool.eq_iff_iff.2 (beq_iff_eq.trans <| compare_eq_iff_eq.trans ?_)
    cases d
    cases e
    simp
  have times (t u : DateTime) : (t.compare u == .eq) = (t == u) :=
    Bool.eq_iff_iff.2 (beq_iff_eq.trans <| compare_eq_iff_eq.trans beq_iff_eq.symm)
  cases l <;> cases hl <;> cases r <;> cases hr
  case int.refl.int.refl i j => exact congrArg Except.ok (ints i j)
  case date.refl.date.refl d e => exact congrArg Except.ok (dates d e)
  case dateTime.refl.dateTime.refl t u => exact congrArg Except.ok (times t u)
  all_goals rfl

/-- On values of one variant the comparison for equality is equality of values. -/
theorem compare_eq_agrees {b : Bool} (h : l.scalar? = r.scalar?)
    (hb : l.compare r .eq = .ok b) : b = (l == r) := by
  have agrees {s : Scalar} (hl : l.scalar? = some s) : b = (l == r) :=
    Except.ok.inj (hb.symm.trans (compare_eq_of_same_scalar hl (h.symm.trans hl)))
  rcases compare_eq_defined_iff.1 ⟨b, hb⟩ with rfl | rfl | ⟨x, y, hl, -⟩ | ⟨s, hl, -⟩
  · cases r <;> cases hb <;> rfl
  · cases l <;> cases hb <;> rfl
  · rcases number?_eq_some_iff.1 hl with ⟨i, rfl, -⟩ | ⟨d, rfl, -⟩
    · exact agrees rfl
    · exact agrees rfl
  · exact agrees hl

/-! ## At most -/

theorem compare_le_iff :
    l.compare r .le = .ok true ↔
      (∃ x y, l.number? = some x ∧ r.number? = some y ∧ x ≤ y) ∨
      (∃ d e, l = .date d ∧ r = .date e ∧ d.dayNumber ≤ e.dayNumber) ∨
      ∃ t u, l = .dateTime t ∧ r = .dateTime u ∧ t.instant ≤ u.instant := by
  constructor
  · intro h
    rcases (compare_order_defined_iff rfl).1 ⟨true, h⟩ with
      ⟨x, y, hl, hr⟩ | ⟨d, e, rfl, rfl⟩ | ⟨t, u, rfl, rfl⟩
    · rw [compare_of_number? hl hr] at h
      exact .inl ⟨x, y, hl, hr, (Comparison.holds_compare_iff .le x y).1 (Except.ok.inj h)⟩
    · exact .inr (.inl ⟨d, e, rfl, rfl,
        (Comparison.holds_compare_iff .le d.dayNumber e.dayNumber).1 (Except.ok.inj h)⟩)
    · exact .inr (.inr ⟨t, u, rfl, rfl,
        (Comparison.holds_compare_iff .le t.instant u.instant).1 (Except.ok.inj h)⟩)
  · rintro (⟨x, y, hl, hr, hle⟩ | ⟨d, e, rfl, rfl, hle⟩ | ⟨t, u, rfl, rfl, hle⟩)
    · rw [compare_of_number? hl hr]
      exact congrArg _ ((Comparison.holds_compare_iff .le x y).2 hle)
    · exact congrArg Except.ok ((Comparison.holds_compare_iff .le d.dayNumber e.dayNumber).2 hle)
    · exact congrArg Except.ok ((Comparison.holds_compare_iff .le t.instant u.instant).2 hle)

theorem compare_le_total (h : HasOrder l r) :
    l.compare r .le = .ok true ∨ r.compare l .le = .ok true := by
  cases compares l r with
  | order o _ forward backward =>
    rw [forward, backward]
    cases o with
    | lt | eq => exact .inl rfl
    | gt => exact .inr rfl
  | equality _ _ _ hnone => exact absurd h hnone
  | never hnone => exact absurd h.hasEquality hnone

theorem compare_le_antisymm (hl : l.compare r .le = .ok true) (hr : r.compare l .le = .ok true) :
    l.compare r .eq = .ok true := by
  cases compares l r with
  | order o _ forward backward =>
    rw [forward] at hl ⊢
    rw [backward] at hr
    cases o with
    | eq => rfl
    | lt => cases hr
    | gt => cases hl
  | equality equal typeName _ _ forward =>
    rw [forward] at hl
    cases hl
  | never _ forward =>
    obtain ⟨e, he⟩ := forward .le
    cases he.symm.trans hl

theorem compare_le_trans (hl : l.compare m .le = .ok true) (hr : m.compare r .le = .ok true) :
    l.compare r .le = .ok true := by
  rw [compare_le_iff] at hl hr ⊢
  rcases hl with ⟨x, y, hlx, hmy, hxy⟩ | ⟨d, e, rfl, rfl, hde⟩ | ⟨t, u, rfl, rfl, htu⟩
  · rcases hr with ⟨y', z, hmy', hrz, hyz⟩ | ⟨_, _, rfl, -, -⟩ | ⟨_, _, rfl, -, -⟩
    · cases hmy.symm.trans hmy'
      exact .inl ⟨x, z, hlx, hrz, hxy.trans hyz⟩
    · cases hmy
    · cases hmy
  · rcases hr with ⟨_, _, hm, -, -⟩ | ⟨_, f, hm, rfl, hef⟩ | ⟨_, _, hm, -, -⟩
    · cases hm
    · cases hm
      exact .inr (.inl ⟨d, f, rfl, rfl, hde.trans hef⟩)
    · cases hm
  · rcases hr with ⟨_, _, hm, -, -⟩ | ⟨_, _, hm, -, -⟩ | ⟨_, w, hm, rfl, huw⟩
    · cases hm
    · cases hm
    · cases hm
      exact .inr (.inr ⟨t, w, rfl, rfl, htu.trans huw⟩)

/-- Comparison is one order. Numbers of both types compare as the exact rational numbers that they
stand for, so being at most is total on them, antisymmetric and transitive, whatever the types that
a chain passes through. On all values the operators fit together: complementary ones give opposite
answers, mirrored ones the same answer with the operands swapped, the ones that ask for an order
have an answer on exactly the same values, and equality is that of values of one variant. -/
theorem compare_exact :
    (∀ l r x y c, number? l = some x → number? r = some y →
      l.compare r c = .ok (decide (c.Relates x y))) ∧
    (∀ l r x y, number? l = some x → number? r = some y →
      l.compare r .le = .ok true ∨ r.compare l .le = .ok true) ∧
    (∀ l r : Value, l.compare r .le = .ok true → r.compare l .le = .ok true →
      l.compare r .eq = .ok true) ∧
    (∀ l m r : Value, l.compare m .le = .ok true → m.compare r .le = .ok true →
      l.compare r .le = .ok true) ∧
    ∀ l r : Value,
      (∀ c, (∃ b, l.compare r c = .ok b ∧ l.compare r c.complement = .ok !b) ∨
        ∃ e e', l.compare r c = .error e ∧ l.compare r c.complement = .error e') ∧
      (∀ c, (∃ b, l.compare r c = .ok b ∧ r.compare l c.mirror = .ok b) ∨
        ∃ e e', l.compare r c = .error e ∧ r.compare l c.mirror = .error e') ∧
      (∀ c, c.isOrder = true → ((∃ b, l.compare r c = .ok b) ↔ HasOrder l r)) ∧
      ((∃ b, l.compare r .eq = .ok b) ↔ HasEquality l r) ∧
      (l.scalar? = r.scalar? → ∀ b, l.compare r .eq = .ok b → b = (l == r)) := by
  refine ⟨?_, ?_, ?_, ?_, ?_⟩
  · intro l r x y c hl hr
    rw [compare_of_number? hl hr, c.holds_compare]
  · intro l r x y hl hr
    exact compare_le_total (.inl ⟨x, y, hl, hr⟩)
  · exact fun _ _ => compare_le_antisymm
  · exact fun _ _ _ => compare_le_trans
  · intro l r
    exact ⟨compare_complement l r, compare_mirror l r, fun _ => compare_order_defined_iff,
      compare_eq_defined_iff, fun h _ => compare_eq_agrees h⟩

/-- The number 2.5, written with one place. -/
def twoAndHalf : Value := .decimal ⟨false, 25, 1, by decide, by decide⟩

/-- The number 2.5, written with two places. -/
def twoAndHalfLong : Value := .decimal ⟨false, 250, 2, by decide, by decide⟩

/-- Two is at most 2.5, and that at most three; 2.5 and 2.50 are equal. -/
theorem compare_exact_mixed :
    (Value.int 2).compare twoAndHalf .le = .ok true ∧
      (Value.int 2).compare (.int 3) .le = .ok true ∧
      twoAndHalf.compare twoAndHalfLong .eq = .ok true ∧
      twoAndHalf.compare twoAndHalfLong .eq = .ok (twoAndHalf == twoAndHalfLong) ∧
      HasOrder (.int 2) twoAndHalf ∧ HasEquality (.bool true) .null := by
  obtain ⟨-, total, antisymm, trans, pairs⟩ := compare_exact
  have hhigh : twoAndHalf.compare (.int 2) .le = .ok false := rfl
  have hlow : (Value.int 2).compare twoAndHalf .le = .ok true :=
    (total (.int 2) twoAndHalf _ _ rfl rfl).resolve_right fun h => nomatch hhigh.symm.trans h
  have hequal : twoAndHalf.compare twoAndHalfLong .eq = .ok true := antisymm _ _ rfl rfl
  refine ⟨hlow, trans _ twoAndHalf _ hlow rfl, hequal, ?_, ?_, ?_⟩
  · exact hequal.trans (congrArg _ ((pairs twoAndHalf twoAndHalfLong).2.2.2.2 rfl _ hequal))
  · exact ((pairs _ _).2.2.1 .le rfl).1 ⟨_, hlow⟩
  · exact (pairs _ _).2.2.2.1.1 ⟨_, rfl⟩

end Value

end ReportCalc
