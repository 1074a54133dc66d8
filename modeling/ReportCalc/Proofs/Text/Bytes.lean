import Mathlib.Data.String.Basic
import Mathlib.Order.Monotone.Basic

/-!
# The order of texts by their bytes

Texts are in the order of their characters. In UTF-8 this is the order of their bytes
(`Text.bytes_lt_iff`). A character is written with the more bytes the greater it is, and then the
first byte is greater, too; characters with equally many bytes are written like numbers with six
bits to a digit (`Text.marked`), which are in the order of their digits.
-/

namespace ReportCalc.Text

/-- The bytes of a text in UTF-8. -/
def bytes (s : String) : List UInt8 := s.toUTF8.data.toList

theorem bytes_eq (s : String) : bytes s = s.toList.flatMap String.utf8EncodeChar := by
  conv_lhs => rw [← String.ofList_toList (s := s)]
  rw [bytes, String.toUTF8, String.toByteArray_ofList, List.utf8Encode, List.data_toByteArray]

/-! ## Characters -/

theorem ofNat_lt_ofNat {a b : Nat} (h : a < b) (hb : b < 256) : UInt8.ofNat a < UInt8.ofNat b := by
  rw [UInt8.lt_iff_toNat_lt, UInt8.toNat_ofNat', UInt8.toNat_ofNat', Nat.mod_eq_of_lt hb,
    Nat.mod_eq_of_lt (h.trans hb)]
  exact h

/-- What is left of a number when as many digits as said, of six bits each, are taken off its end,
with a mark added. -/
def lead (mark : Nat) : Nat → Nat → Nat
  | 0, n => n + mark
  | k + 1, n => lead mark k (n / 64)

/-- A number as a first byte with a mark, and as many bytes after it as said, with a digit of six
bits each. -/
def marked (mark : Nat) : Nat → Nat → List UInt8
  | 0, n => [.ofNat (n + mark)]
  | k + 1, n => marked mark k (n / 64) ++ [.ofNat (n % 64 + 128)]

theorem marked_eq_cons (mark k n : Nat) :
    ∃ rest, marked mark k n = .ofNat (lead mark k n) :: rest := by
  induction k generalizing n with
  | zero => exact ⟨[], rfl⟩
  | succ k ih =>
    obtain ⟨rest, hrest⟩ := ih (n / 64)
    exact ⟨rest ++ [.ofNat (n % 64 + 128)], by rw [marked, lead, hrest, List.cons_append]⟩

/-- With the same mark and equally many bytes the greater number comes later, whatever follows. -/
theorem marked_append_lt {mark k n m : Nat} (h : n < m) (hlead : lead mark k m < 256)
    (u v : List UInt8) : marked mark k n ++ u < marked mark k m ++ v := by
  induction k generalizing n m u v with
  | zero =>
    have first : n + mark < m + mark := Nat.add_lt_add_right h mark
    exact List.cons_lt_cons_iff.2 (.inl (ofNat_lt_ofNat first hlead))
  | succ k ih =>
    simp only [marked, List.append_assoc]
    -- the numbers differ in the digits before the last one, or else in the last one
    rcases Nat.lt_or_ge (n / 64) (m / 64) with hdigits | hdigits
    · exact ih hdigits hlead _ _
    · have same : n / 64 = m / 64 := by omega
      have last : n % 64 + 128 < m % 64 + 128 := by omega
      rw [same]
      refine List.append_left_lt ?_
      exact List.cons_lt_cons_iff.2 (.inl (ofNat_lt_ofNat last (by omega)))

/-- The mark of a number that is written in UTF-8, and how many bytes follow the first one. -/
inductive Marks : Nat → Nat → Nat → Prop
  | one {n : Nat} (hn : n ≤ 0x7f) : Marks 0 0 n
  | two {n : Nat} (h : 0x7f < n) (hn : n ≤ 0x7ff) : Marks 0xc0 1 n
  | three {n : Nat} (h : 0x7ff < n) (hn : n ≤ 0xffff) : Marks 0xe0 2 n
  | four {n : Nat} (h : 0xffff < n) (hn : n < 0x110000) : Marks 0xf0 3 n

theorem exists_marks (c : Char) :
    ∃ mark k, Marks mark k c.toNat ∧ String.utf8EncodeChar c = marked mark k c.toNat := by
  have hc : c.val.toNat < 0x110000 := by
    rcases c.valid with h | h
    · exact h.trans (by decide)
    · exact h.2
  unfold String.utf8EncodeChar Char.toNat
  generalize c.val.toNat = n at hc
  dsimp only
  split
  · next h => exact ⟨_, _, .one h, rfl⟩
  split
  · next h h' =>
    refine ⟨_, _, .two (Nat.lt_of_not_le h) h', ?_⟩
    rw [show n / 64 % 32 = n / 64 by omega]
    rfl
  split
  · next h h' =>
    refine ⟨_, _, .three (Nat.lt_of_not_le h) h', ?_⟩
    rw [show n / 4096 % 16 = n / 64 / 64 by omega]
    rfl
  · next h =>
    refine ⟨_, _, .four (Nat.lt_of_not_le h) hc, ?_⟩
    have first : n / 262144 % 8 = n / 64 / 64 / 64 := by omega
    have second : n / 4096 % 64 = n / 64 / 64 % 64 := by omega
    rw [first, second]
    rfl

/-- A greater number has the same mark, or a greater first byte. -/
theorem Marks.same_or_lead_lt {mark k n mark' k' m : Nat} (hn : Marks mark k n)
    (hm : Marks mark' k' m) (h : n < m) :
    (mark = mark' ∧ k = k' ∨ lead mark k n < lead mark' k' m) ∧ lead mark' k' m < 256 := by
  cases hn <;> cases hm <;> simp only [lead, and_self, true_or, true_and] <;> omega

/-- The bytes of a greater character come later, whatever follows. -/
theorem utf8EncodeChar_append_lt {c d : Char} (h : c < d) (u v : List UInt8) :
    String.utf8EncodeChar c ++ u < String.utf8EncodeChar d ++ v := by
  obtain ⟨mark, k, hc, hcbytes⟩ := exists_marks c
  obtain ⟨mark', k', hd, hdbytes⟩ := exists_marks d
  obtain ⟨hlead, hbound⟩ := hc.same_or_lead_lt hd h
  rw [hcbytes, hdbytes]
  rcases hlead with ⟨rfl, rfl⟩ | hlead
  · exact marked_append_lt h hbound u v
  · obtain ⟨rest, hrest⟩ := marked_eq_cons mark k c.toNat
    obtain ⟨rest', hrest'⟩ := marked_eq_cons mark' k' d.toNat
    rw [hrest, hrest']
    exact List.cons_lt_cons_iff.2 (.inl (ofNat_lt_ofNat hlead hbound))

/-! ## Texts -/

theorem flatMap_utf8EncodeChar_lt {cs ds : List Char} (h : cs < ds) :
    cs.flatMap String.utf8EncodeChar < ds.flatMap String.utf8EncodeChar := by
  induction cs generalizing ds with
  | nil =>
    cases ds with
    | nil => cases h
    | cons d ds =>
      obtain ⟨mark, k, -, hbytes⟩ := exists_marks d
      obtain ⟨rest, hrest⟩ := marked_eq_cons mark k d.toNat
      rw [List.flatMap_cons, hbytes, hrest]
      exact List.nil_lt_cons ..
  | cons c cs ih =>
    cases ds with
    | nil => cases h
    | cons d ds =>
      rw [List.flatMap_cons, List.flatMap_cons]
      rcases List.cons_lt_cons_iff.1 h with hlt | ⟨rfl, hlt⟩
      · exact utf8EncodeChar_append_lt hlt _ _
      · exact List.append_left_lt (ih hlt)

/-- Texts are in the order of their bytes. -/
theorem bytes_lt_iff {s t : String} : bytes s < bytes t ↔ s < t := by
  have forth {s t : String} (h : s < t) : bytes s < bytes t := by
    rw [bytes_eq, bytes_eq]
    exact flatMap_utf8EncodeChar_lt (String.lt_iff.1 h)
  refine ⟨fun h => ?_, forth⟩
  rcases lt_trichotomy s t with hlt | rfl | hgt
  · exact hlt
  · exact absurd h (List.lt_irrefl _)
  · exact absurd h (List.lt_asymm (forth hgt))

end ReportCalc.Text
