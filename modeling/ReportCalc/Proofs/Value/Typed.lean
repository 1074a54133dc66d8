import ReportCalc.Value.Typed

/-!
# Values in typed kinds

A runtime value is read in the type of a kind exactly when the kind admits it
(`TypedKind.isSome_ofValue?`), and it is read as the one value of the type that is written so
(`TypedKind.ofValue?_eq_some_iff`). Reading looks at the form of the value and kinds look at its
scalar; that the two agree is `TypedKind.reading_inverts_writing`.
-/

namespace ReportCalc

namespace Scalar

theorem isSome_ofValue? (s : Scalar) (v : Value) :
    (s.ofValue? v).isSome = (v.scalar? == some s) := by
  cases s <;> cases v <;> rfl

/-- A value is read as what is written like it, and as nothing else. -/
theorem ofValue?_eq_some_iff {s : Scalar} {v : Value} {x : s.Carrier} :
    s.ofValue? v = some x ↔ v = s.toValue x := by
  cases s with
  | identifier =>
    obtain ⟨key⟩ := x
    cases v <;> simp [ofValue?, toValue]
  | _ => cases v <;> simp [ofValue?, toValue]

/-- The absent value is not of any scalar. -/
theorem isNull_toValue (s : Scalar) (x : s.Carrier) : (s.toValue x).isNull = false := by
  cases s <;> rfl

end Scalar

namespace TypedKind

theorem isSome_ofItems? (s : Scalar) (items : List (Named Value)) :
    (ofItems? s items).isSome = items.all (·.value.scalar? == some s) := by
  induction items with
  | nil => rfl
  | cons item rest ih =>
    obtain ⟨name, value⟩ := item
    have hvalue := s.isSome_ofValue? value
    simp only [ofItems?, List.all_cons, ← ih, ← hvalue]
    cases s.ofValue? value <;> cases ofItems? s rest <;> rfl

theorem isSome_ofValue? (k : TypedKind) (v : Value) : (k.ofValue? v).isSome = k.kind.admits v := by
  cases k with
  | plain s => exact s.isSome_ofValue? v
  | optional s =>
    have hvalue := s.isSome_ofValue? v
    simp only [ofValue?, kind, Kind.admits, ← hvalue]
    cases v.isNull <;> simp
  | namedList s =>
    cases v with
    | namedList items => exact isSome_ofItems? s items
    | _ => rfl

/-- A list is read entry by entry, and one entry of another scalar is enough to refuse it. -/
theorem ofItems?_eq_some_iff {s : Scalar} {items : List (Named Value)}
    {xs : List (Named s.Carrier)} :
    ofItems? s items = some xs ↔ items = xs.map fun x => ⟨x.name, s.toValue x.value⟩ := by
  induction items generalizing xs with
  | nil => cases xs <;> simp [ofItems?]
  | cons item rest ih =>
    obtain ⟨name, value⟩ := item
    simp only [ofItems?, Option.bind_eq_bind, Option.bind_eq_some_iff, Option.some.injEq]
    constructor
    · rintro ⟨x, hx, ys, hys, rfl⟩
      rw [Scalar.ofValue?_eq_some_iff.1 hx, ih.1 hys]
      rfl
    · intro h
      obtain ⟨x, ys, rfl, hx, hys⟩ := List.map_eq_cons_iff.1 h.symm
      cases hx
      exact ⟨x.value, Scalar.ofValue?_eq_some_iff.2 rfl, ys, ih.2 hys.symm, rfl⟩

theorem ofValue?_eq_some_iff {k : TypedKind} {v : Value} {x : k.Carrier} :
    k.ofValue? v = some x ↔ v = k.toValue x := by
  cases k with
  | plain s => exact Scalar.ofValue?_eq_some_iff
  | optional s =>
    -- `null` is looked for first, and no scalar is written like that
    rw [ofValue?]
    cases x with
    | none =>
      cases hnull : v.isNull with
      | true => exact iff_of_true rfl (Value.isNull_iff.1 hnull)
      | false => exact iff_of_false (by simp) (by simp [toValue, ← Value.isNull_iff, hnull])
    | some y =>
      cases hnull : v.isNull with
      | true =>
        refine iff_of_false (by simp) fun h => ?_
        rw [h] at hnull
        cases s.isNull_toValue y ▸ hnull
      | false => simpa [toValue] using Scalar.ofValue?_eq_some_iff
  | namedList s =>
    cases v with
    | namedList items => exact ofItems?_eq_some_iff.trans (by simp [toValue])
    | _ => exact iff_of_false nofun nofun

/-- Typed values and kinds agree on what conforms to a kind. A runtime value can be read in the type
of a kind exactly when the kind admits it, and what is read from it is the value of the type that is
written so; what any value of the type is written as is admitted and read as that value again. -/
theorem reading_inverts_writing (k : TypedKind) :
    (∀ v, (∃ x, k.ofValue? v = some x) ↔ k.kind.admits v = true) ∧
      (∀ v x, k.ofValue? v = some x ↔ k.toValue x = v) ∧
        ∀ x, k.kind.admits (k.toValue x) = true ∧ k.ofValue? (k.toValue x) = some x := by
  have written (x : k.Carrier) : k.ofValue? (k.toValue x) = some x := ofValue?_eq_some_iff.2 rfl
  refine ⟨fun v => ?_, fun v x => ofValue?_eq_some_iff.trans eq_comm, fun x => ⟨?_, written x⟩⟩
  · rw [← isSome_ofValue?, Option.isSome_iff_exists]
  · rw [← isSome_ofValue?, written x]
    rfl

/-- An absent value is an optional one, but no entry of a list. -/
example :
    (optional .int).ofValue? .null = some none ∧
      (namedList .int).ofValue? (.namedList [⟨"a", .int 1⟩, ⟨"a", .null⟩]) = none :=
  ⟨rfl, rfl⟩

end TypedKind

end ReportCalc
