/-!
# Association lists in the order of their keys

Slots of a cell and fields of an object are kept as lists of pairs in strictly increasing order of
the keys. `Keyed.insert` keeps that order (`sorted_insert`), so such a list holds every key once and
equal collections are equal lists.
-/

namespace ReportCalc.Keyed

variable {α : Type}

/-- Puts an entry in its place; an entry with the same key is replaced. -/
def insert (key : String) (value : α) : List (String × α) → List (String × α)
  | [] => [(key, value)]
  | (k, v) :: rest =>
    if key = k then (key, value) :: rest
    else if key < k then (key, value) :: (k, v) :: rest
    else (k, v) :: insert key value rest

/-- The entries in order of their keys; of several with one key the last one stays. -/
def ofList (entries : List (String × α)) : List (String × α) :=
  entries.foldl (fun sorted entry => insert entry.1 entry.2 sorted) []

/-- Gives the entry with this key, if there is one, another value. -/
def replace (key : String) (value : α) : List (String × α) → List (String × α)
  | [] => []
  | (k, v) :: rest => if key = k then (k, value) :: rest else (k, v) :: replace key value rest

def Sorted (entries : List (String × α)) : Prop := (entries.map Prod.fst).Pairwise (· < ·)

/-! ## The keys after an insertion -/

theorem mem_keys_insert {key k : String} {value : α} {entries : List (String × α)} :
    k ∈ (insert key value entries).map Prod.fst ↔ k = key ∨ k ∈ entries.map Prod.fst := by
  induction entries with
  | nil => simp [insert]
  | cons entry rest ih =>
    obtain ⟨head, v⟩ := entry
    by_cases eq : key = head
    · simp [insert, eq]
    · by_cases lt : key < head
      · simp [insert, eq, lt]
      · simp only [insert, eq, lt, if_false, List.map_cons, List.mem_cons, ih]
        exact or_left_comm

theorem sorted_insert {key : String} {value : α} {entries : List (String × α)}
    (h : Sorted entries) : Sorted (insert key value entries) := by
  induction entries with
  | nil => simp [insert, Sorted]
  | cons entry rest ih =>
    obtain ⟨head, v⟩ := entry
    obtain ⟨below, sorted⟩ := List.pairwise_cons.1 h
    by_cases eq : key = head
    · subst eq
      simpa [insert, Sorted] using h
    · by_cases lt : key < head
      · simp only [insert, eq, lt, if_false, if_true]
        refine List.pairwise_cons.2 ⟨fun k hk => ?_, h⟩
        rcases List.mem_cons.1 hk with rfl | hk
        · exact lt
        · exact String.lt_trans lt (below k hk)
      · simp only [insert, eq, lt, if_false]
        refine List.pairwise_cons.2 ⟨fun k hk => ?_, ih sorted⟩
        rcases mem_keys_insert.1 hk with rfl | hk
        · exact Std.lt_of_le_of_ne (String.not_lt.1 lt) (Ne.symm eq)
        · exact below k hk

theorem sorted_ofList (entries : List (String × α)) : Sorted (ofList entries) := by
  have step : ∀ sorted : List (String × α), Sorted sorted →
      Sorted (entries.foldl (fun sorted entry => insert entry.1 entry.2 sorted) sorted) := by
    induction entries with
    | nil => exact fun _ h => h
    | cons entry rest ih => exact fun _ h => ih _ (sorted_insert h)
  exact step [] List.Pairwise.nil

theorem lookup_cons {key k : String} {value : α} {rest : List (String × α)} :
    ((key, value) :: rest).lookup k = if k = key then some value else rest.lookup k := by
  change (match k == key with
    | true => some value
    | false => rest.lookup k) = _
  by_cases same : k = key
  · rw [if_pos same, beq_iff_eq.2 same]
  · rw [if_neg same, beq_false_of_ne same]

/-- Looking a key up finds the value inserted last under it. -/
theorem lookup_insert {key k : String} {value : α} {entries : List (String × α)} :
    (insert key value entries).lookup k = if k = key then some value else entries.lookup k := by
  induction entries with
  | nil => simp [insert, lookup_cons]
  | cons entry rest ih =>
    obtain ⟨head, v⟩ := entry
    by_cases eq : key = head
    · subst eq
      by_cases same : k = key <;> simp [insert, lookup_cons, same]
    · by_cases lt : key < head
      · simp [insert, eq, lt, lookup_cons]
      · by_cases same : k = head
        · subst same
          simp [insert, eq, Ne.symm eq, lt]
        · simp [insert, eq, lt, lookup_cons, same, ih]

end ReportCalc.Keyed
