import Mathlib.Data.Finset.Card
import ReportCalc.Dispatch.Factory

/-!
# First registrations

A factory is built by calls, each of which registers a protocol for one key or under several tags.
Whatever the calls, a key has the protocol of its first registration (`lookup_built_eq_some_iff`),
and the factory has as many entries as keys were registered (`size_built`). All of it comes from
one equation: registering entries continues the table as a list would (`lookup_registerAll`).
-/

namespace ReportCalc

variable {σ : Type}

theorem lookup_eq_none_iff_notMem {entries : List (ProtocolKey × Protocol σ)} {key : ProtocolKey} :
    entries.lookup key = none ↔ key ∉ entries.map Prod.fst := by
  rw [List.lookup_eq_none_iff]
  constructor
  · intro h hmem
    obtain ⟨entry, hentry, rfl⟩ := List.mem_map.1 hmem
    simpa using h entry hentry
  · intro h entry hentry
    have hne : key ≠ entry.1 := fun heq => h (heq ▸ List.mem_map_of_mem hentry)
    simpa using hne

/-- The first entry of a key is the one that is found. -/
theorem lookup_eq_some_iff_first {entries : List (ProtocolKey × Protocol σ)} {key : ProtocolKey}
    {protocol : Protocol σ} :
    entries.lookup key = some protocol ↔
      ∃ before after, entries = before ++ (key, protocol) :: after ∧
        key ∉ before.map Prod.fst := by
  constructor
  · intro h
    obtain ⟨before, after, hentries, hbefore⟩ := List.lookup_eq_some_iff.1 h
    refine ⟨before, after, hentries, fun hmem => ?_⟩
    obtain ⟨entry, hentry, rfl⟩ := List.mem_map.1 hmem
    simpa using hbefore entry hentry
  · rintro ⟨before, after, rfl, hbefore⟩
    rw [List.lookup_append, lookup_eq_none_iff_notMem.2 hbefore, Option.none_or,
      List.lookup_cons_self]

namespace ProtocolFactory

def keys (f : ProtocolFactory σ) : List ProtocolKey := f.entries.map Prod.fst

theorem contains_iff_mem_keys {f : ProtocolFactory σ} {key : ProtocolKey} :
    f.contains key = true ↔ key ∈ f.keys := by
  rw [contains, Option.isSome_iff_ne_none, keys, ← not_iff_not, not_not]
  exact lookup_eq_none_iff_notMem

/-! ## Registering one protocol -/

theorem lookup_register (f : ProtocolFactory σ) (key other : ProtocolKey) (protocol : Protocol σ) :
    (f.register key protocol).lookup other =
      (f.lookup other).or ([(key, protocol)].lookup other) := by
  unfold register
  split
  · next hknown =>
    by_cases heq : other = key
    · subst heq
      obtain ⟨first, hfirst⟩ := Option.isSome_iff_exists.1 hknown
      rw [hfirst, Option.some_or]
    · have hnone : [(key, protocol)].lookup other = none :=
        lookup_eq_none_iff_notMem.2 (by simpa using heq)
      rw [hnone, Option.or_none]
  · exact List.lookup_append

theorem nodup_keys_register {f : ProtocolFactory σ} (h : f.keys.Nodup) (key : ProtocolKey)
    (protocol : Protocol σ) : (f.register key protocol).keys.Nodup := by
  unfold register
  split
  · exact h
  · next hnew =>
    have hkey : key ∉ f.keys := fun hmem => hnew (contains_iff_mem_keys.2 hmem)
    simpa [keys, List.nodup_append] using ⟨h, fun a b hmem heq => hkey (heq ▸
      List.mem_map_of_mem hmem)⟩

/-! ## Registering entries one after the other -/

def registerAll (f : ProtocolFactory σ) (entries : List (ProtocolKey × Protocol σ)) :
    ProtocolFactory σ :=
  entries.foldl (fun f entry => f.register entry.1 entry.2) f

theorem registerAll_append (f : ProtocolFactory σ)
    (entries more : List (ProtocolKey × Protocol σ)) :
    f.registerAll (entries ++ more) = (f.registerAll entries).registerAll more :=
  List.foldl_append ..

/-- What is registered comes after what the table has. -/
theorem lookup_registerAll (f : ProtocolFactory σ) (entries : List (ProtocolKey × Protocol σ))
    (key : ProtocolKey) :
    (f.registerAll entries).lookup key = (f.lookup key).or (entries.lookup key) := by
  induction entries generalizing f with
  | nil => exact (Option.or_none ..).symm
  | cons entry rest ih =>
    calc (f.registerAll (entry :: rest)).lookup key
        = ((f.register entry.1 entry.2).lookup key).or (rest.lookup key) := ih _
      _ = ((f.lookup key).or ([entry].lookup key)).or (rest.lookup key) := by
        rw [lookup_register]
      _ = (f.lookup key).or ((entry :: rest).lookup key) := by
        rw [Option.or_assoc, ← List.lookup_append, List.singleton_append]

theorem lookup_registerAll_empty (name : String) (entries : List (ProtocolKey × Protocol σ))
    (key : ProtocolKey) : ((empty name).registerAll entries).lookup key = entries.lookup key :=
  lookup_registerAll ..

theorem nodup_keys_registerAll {f : ProtocolFactory σ} (h : f.keys.Nodup)
    (entries : List (ProtocolKey × Protocol σ)) : (f.registerAll entries).keys.Nodup := by
  induction entries generalizing f with
  | nil => exact h
  | cons entry rest ih => exact ih (nodup_keys_register h entry.1 entry.2)

theorem size_registerAll_empty (name : String) (entries : List (ProtocolKey × Protocol σ)) :
    ((empty name).registerAll entries).size = (entries.map Prod.fst).toFinset.card := by
  have hnodup : ((empty name).registerAll entries).keys.Nodup :=
    nodup_keys_registerAll (f := empty name) List.nodup_nil entries
  have hkeys : ((empty name).registerAll entries).keys.toFinset =
      (entries.map Prod.fst).toFinset := by
    ext key
    rw [List.mem_toFinset, List.mem_toFinset, ← not_iff_not, keys, ← lookup_eq_none_iff_notMem,
      ← lookup_eq_none_iff_notMem]
    exact Eq.congr_left (lookup_registerAll_empty name entries key)
  rw [← hkeys, List.toFinset_card_of_nodup hnodup, keys, List.length_map]
  rfl

end ProtocolFactory

/-! ## Calls -/

/-- A call that registers a protocol. -/
inductive Registration (σ : Type) where
  | one (key : ProtocolKey) (protocol : Protocol σ)
  | underTags (tags : List OperationTag) (result : Kind) (protocol : Protocol σ)

namespace Registration

def apply (f : ProtocolFactory σ) : Registration σ → ProtocolFactory σ
  | .one key protocol => f.register key protocol
  | .underTags tags result protocol => f.registerTags tags result protocol

/-- The keys that a call is about, each with the protocol. -/
def entries : Registration σ → List (ProtocolKey × Protocol σ)
  | .one key protocol => [(key, protocol)]
  | .underTags tags result protocol => tags.map fun tag => (⟨tag, result⟩, protocol)

theorem apply_eq_registerAll (f : ProtocolFactory σ) (call : Registration σ) :
    call.apply f = f.registerAll call.entries := by
  cases call with
  | one => rfl
  | underTags =>
    rw [entries, ProtocolFactory.registerAll, List.foldl_map]
    rfl

end Registration

namespace ProtocolFactory

/-- The factory that a sequence of calls builds. -/
def built (name : String) (calls : List (Registration σ)) : ProtocolFactory σ :=
  calls.foldl Registration.apply (empty name)

theorem built_eq_registerAll (name : String) (calls : List (Registration σ)) :
    built name calls = (empty name).registerAll (calls.flatMap Registration.entries) := by
  unfold built
  generalize empty name = f
  induction calls generalizing f with
  | nil => rfl
  | cons call rest ih =>
    rw [List.foldl_cons, ih, List.flatMap_cons, registerAll_append,
      Registration.apply_eq_registerAll]

theorem lookup_built (name : String) (calls : List (Registration σ)) (key : ProtocolKey) :
    (built name calls).lookup key = (calls.flatMap Registration.entries).lookup key := by
  rw [built_eq_registerAll, lookup_registerAll_empty]

/-- A key has the protocol of its first registration. -/
theorem lookup_built_eq_some_iff {name : String} {calls : List (Registration σ)}
    {key : ProtocolKey} {protocol : Protocol σ} :
    (built name calls).lookup key = some protocol ↔
      ∃ before after, calls.flatMap Registration.entries = before ++ (key, protocol) :: after ∧
        key ∉ before.map Prod.fst := by
  rw [lookup_built]
  exact lookup_eq_some_iff_first

/-- A key that was never registered has no protocol. -/
theorem lookup_built_eq_none_iff {name : String} {calls : List (Registration σ)}
    {key : ProtocolKey} :
    (built name calls).lookup key = none ↔
      key ∉ (calls.flatMap Registration.entries).map Prod.fst := by
  rw [lookup_built]
  exact lookup_eq_none_iff_notMem

theorem size_built (name : String) (calls : List (Registration σ)) :
    (built name calls).size =
      ((calls.flatMap Registration.entries).map Prod.fst).toFinset.card := by
  rw [built_eq_registerAll, size_registerAll_empty]

end ProtocolFactory

end ReportCalc
