import Mathlib.Algebra.Order.Ring.Int
import ReportCalc.Decimal.Arithmetic

/-!
# Whole decimal numbers

On decimals without decimal places addition, subtraction and multiplication are those of integers,
as long as the result has at most 96 bits (`Decimal.add?_ofInt`, `Decimal.sub?_ofInt`,
`Decimal.mul?_ofInt`). Their results have no places either, and no zero among them has a minus sign.
-/

namespace ReportCalc.Decimal

/-- An integer of at most 96 bits as a decimal number without decimal places. -/
def ofInt (x : Int) (h : x.natAbs < limit) : Decimal :=
  ⟨decide (x < 0), x.natAbs, 0, h, Nat.zero_le _⟩

variable {x y : Int} {hx : x.natAbs < limit} {hy : y.natAbs < limit}

theorem natAbs_toInt_lt (i : Int64) : i.toInt.natAbs < limit := (ofInt64 i).magnitude_lt

theorem ofInt_congr (h : x = y) : ofInt x hx = ofInt y hy := by subst h; rfl

theorem zero_eq_ofInt : zero = ofInt 0 (by decide) := rfl

@[simp] theorem coefficient_ofInt : (ofInt x hx).coefficient = x := by
  by_cases h : x < 0 <;> simp only [coefficient, ofInt, h, decide_true, decide_false, if_true,
    Bool.false_eq_true, if_false] <;> omega

@[simp] theorem isZero_ofInt : (ofInt x hx).isZero = decide (x = 0) := by
  by_cases h : x = 0 <;> simp [isZero, ofInt, h]

theorem rescaled_ofInt : (ofInt x hx).rescaled 0 = x := by
  rw [rescaled, coefficient_ofInt]
  exact mul_one x

/-- What can be represented as it stands is not rounded. -/
theorem fit?_of_lt {negative : Bool} {magnitude scale : Nat} (hmagnitude : magnitude < limit)
    (hscale : scale ≤ maxScale) : fit? negative magnitude scale =
      some ⟨negative, magnitude, scale, hmagnitude, hscale⟩ := by
  have hdiv : divHalfEven magnitude (tenPow 0) = magnitude := divHalfEven_one magnitude
  have hfits : fitsAfter magnitude scale 0 = true := by
    simp [fitsAfter, hdiv, hmagnitude, hscale]
  have hfind : (List.range (scale + 1)).find? (fitsAfter magnitude scale) = some 0 := by
    rw [List.range_succ_eq_map, List.find?_cons_of_pos hfits]
  rw [fit?, hfind]
  exact ofParts?_eq_some.2 ⟨rfl, hdiv.symm, rfl⟩

theorem fit?_ofInt (h : x.natAbs < limit) : fit? (decide (x < 0)) x.natAbs 0 = some (ofInt x h) :=
  fit?_of_lt h (Nat.zero_le _)

theorem neg_ofInt (h : (-x).natAbs < limit) : (ofInt x hx).neg = ofInt (-x) h := by
  refine ext_iff.2 ⟨?_, (Int.natAbs_neg x).symm, rfl⟩
  rw [neg, isZero_ofInt]
  rcases lt_trichotomy x 0 with hlt | rfl | hgt
  · simp [ofInt, hlt, hlt.ne, hlt.le]
  · rfl
  · simp [ofInt, hgt, hgt.ne', hgt.le]

theorem add?_ofInt (h : (x + y).natAbs < limit) :
    (ofInt x hx).add? (ofInt y hy) = some (ofInt (x + y) h) := by
  rw [add?, isZero_ofInt, isZero_ofInt]
  by_cases hx0 : x = 0
  · subst hx0
    simp
  by_cases hy0 : y = 0
  · subst hy0
    simp [hx0]
  · simp only [hx0, hy0, decide_false, Bool.false_eq_true, if_false]
    have hscale : max (ofInt x hx).scale (ofInt y hy).scale = 0 := rfl
    rw [hscale, rescaled_ofInt, rescaled_ofInt]
    exact fit?_ofInt h

theorem sub?_ofInt (h : (x - y).natAbs < limit) :
    (ofInt x hx).sub? (ofInt y hy) = some (ofInt (x - y) h) := by
  have hneg : (-y).natAbs < limit := by rwa [Int.natAbs_neg]
  rw [sub?, neg_ofInt hneg, add?_ofInt (by rwa [← sub_eq_add_neg])]
  exact congrArg some (ofInt_congr (sub_eq_add_neg x y).symm)

theorem unsignedZero_ofInt : (ofInt x hx).unsignedZero = ofInt x hx := by
  refine ext_iff.2 ⟨?_, rfl, rfl⟩
  by_cases h : x = 0 <;> simp [unsignedZero, ofInt, isZero, h]

theorem mul?_ofInt (h : (x * y).natAbs < limit) :
    (ofInt x hx).mul? (ofInt y hy) = some (ofInt (x * y) h) := by
  by_cases hzero : x = 0 ∨ y = 0
  · have hproduct : x * y = 0 := mul_eq_zero.2 hzero
    have hisZero : ((ofInt x hx).isZero || (ofInt y hy).isZero) = true := by simpa using hzero
    rw [mul?]
    simp only [hisZero, if_true]
    exact congrArg some (zero_eq_ofInt.trans (ofInt_congr hproduct.symm))
  · obtain ⟨hx0, hy0⟩ := not_or.1 hzero
    have hsign : ((ofInt x hx).negative != (ofInt y hy).negative) = decide (x * y < 0) := by
      have hneg : x * y < 0 ↔ x < 0 ∧ ¬y < 0 ∨ ¬x < 0 ∧ y < 0 := by
        rw [mul_neg_iff]
        omega
      by_cases hx' : x < 0 <;> by_cases hy' : y < 0 <;> simp [ofInt, hneg, hx', hy']
    have hfit : fit? ((ofInt x hx).negative != (ofInt y hy).negative)
        ((ofInt x hx).magnitude * (ofInt y hy).magnitude)
        ((ofInt x hx).scale + (ofInt y hy).scale) = some (ofInt (x * y) h) := by
      rw [hsign, ← fit?_ofInt h, Int.natAbs_mul]
      rfl
    have hisZero : ((ofInt x hx).isZero || (ofInt y hy).isZero) = false := by simp [hx0, hy0]
    rw [mul?]
    simp only [hfit, hisZero, Bool.false_eq_true, if_false, Option.map_some, unsignedZero_ofInt]
    split
    · have hplaces : ¬vanishingScale < (ofInt x hx).scale + (ofInt y hy).scale := Nat.not_lt_zero _
      rw [if_neg hplaces]
    · rfl

end ReportCalc.Decimal
