import ReportCalc.Proofs.Dispatch.Tables

/-!
# Which source answers

Chains can be sources of chains. However they are nested, a key is looked up as in the one factory
in which the tables of all factories are registered in their order (`SourceTree.source_eq_merged`).
For a chain with built-in tables that order does not matter beyond the sources of the host: the
tables of different kinds share no key. `first_registration_wins` states both, with what is known
of a single factory.
-/

namespace ReportCalc

variable {σ : Type}

/-! ## Chains of chains -/

/-- The factory in which all tables are registered, one after the other. -/
def ProtocolFactory.merged (name : String) (factories : List (ProtocolFactory σ)) :
    ProtocolFactory σ :=
  (empty name).registerAll (factories.flatMap ProtocolFactory.entries)

/-- Factories in some order, parts of which are chains of their own. -/
inductive SourceTree (σ : Type) where
  | factory (f : ProtocolFactory σ)
  | chain (parts : List (SourceTree σ))

namespace SourceTree

mutual

def source : SourceTree σ → ProtocolSource σ
  | .factory f => f.lookup
  | .chain parts => (ProtocolChain.mk (sources parts)).lookup

def sources : List (SourceTree σ) → List (ProtocolSource σ)
  | [] => []
  | part :: rest => part.source :: sources rest

end

mutual

def factories : SourceTree σ → List (ProtocolFactory σ)
  | .factory f => [f]
  | .chain parts => allFactories parts

def allFactories : List (SourceTree σ) → List (ProtocolFactory σ)
  | [] => []
  | part :: rest => part.factories ++ allFactories rest

end

mutual

theorem source_eq (tree : SourceTree σ) (key : ProtocolKey) :
    tree.source key = (tree.factories.flatMap ProtocolFactory.entries).lookup key := by
  cases tree with
  | factory f => rw [source, factories, List.flatMap_singleton, ProtocolFactory.lookup]
  | chain parts => exact findSome?_sources parts key

theorem findSome?_sources (trees : List (SourceTree σ)) (key : ProtocolKey) :
    (sources trees).findSome? (· key) =
      ((allFactories trees).flatMap ProtocolFactory.entries).lookup key := by
  cases trees with
  | nil => rfl
  | cons part rest =>
    rw [sources, List.findSome?_cons, allFactories, List.flatMap_append, List.lookup_append,
      ← source_eq part, ← findSome?_sources rest]
    cases part.source key <;> rfl

end

theorem source_eq_merged (name : String) (tree : SourceTree σ) (key : ProtocolKey) :
    tree.source key = (ProtocolFactory.merged name tree.factories).lookup key := by
  rw [source_eq, ProtocolFactory.merged, ProtocolFactory.lookup_registerAll_empty]

end SourceTree

/-! ## Chains with built-in tables -/

namespace ProtocolChain

theorem resolve_eq_of_lookup_eq {chain other : ProtocolChain σ} {key : ProtocolKey}
    (h : chain.lookup key = other.lookup key) : chain.resolve key = other.resolve key := by
  rw [resolve, resolve, h]

/-- Only which kinds have a table matters, not how often or in what order. -/
theorem resolve_withBuiltins_of_mem_iff (host : List (ProtocolSource σ)) {kinds others : List Kind}
    (h : ∀ kind, kind ∈ kinds ↔ kind ∈ others) (key : ProtocolKey) :
    (withBuiltins host kinds).resolve key = (withBuiltins host others).resolve key := by
  apply resolve_eq_of_lookup_eq
  simp only [lookup_withBuiltins_eq, h]

/-- The first source of the host that knows a key shadows all that come later. -/
theorem resolve_withBuiltins_of_host {before after : List (ProtocolSource σ)}
    {source : ProtocolSource σ} {key : ProtocolKey} {protocol : Protocol σ} (kinds : List Kind)
    (hbefore : ∀ earlier ∈ before, earlier key = none) (hsource : source key = some protocol) :
    (withBuiltins (before ++ source :: after) kinds).resolve key = .ok protocol := by
  have hfound : (before ++ source :: after).findSome? (· key) = some protocol := by
    rw [List.findSome?_append, List.findSome?_eq_none_iff.2 hbefore, List.findSome?_cons, hsource]
    rfl
  rw [resolve, lookup_withBuiltins_eq, hfound, Option.some_or]

/-- A host that does not know a key makes no difference to it. -/
theorem resolve_withBuiltins_of_unknown {host : List (ProtocolSource σ)} {key : ProtocolKey}
    (kinds : List Kind) (h : ∀ source ∈ host, source key = none) :
    (withBuiltins host kinds).resolve key = (withBuiltins [] kinds).resolve key := by
  apply resolve_eq_of_lookup_eq
  rw [lookup_withBuiltins_eq, lookup_withBuiltins_eq, List.findSome?_eq_none_iff.2 h,
    List.findSome?_nil]

/-- The first registration of a key wins in a factory, the first table in chains of factories, and
the first source of the host in a chain with built-in tables, in which a key of which the host
knows nothing has whatever the set of kinds gives it. -/
theorem first_registration_wins :
    (∀ (name : String) (calls : List (Registration σ)),
      (∀ key protocol, (ProtocolFactory.built name calls).lookup key = some protocol ↔
        ∃ before after, calls.flatMap Registration.entries = before ++ (key, protocol) :: after ∧
          key ∉ before.map Prod.fst) ∧
      (ProtocolFactory.built name calls).size =
        ((calls.flatMap Registration.entries).map Prod.fst).toFinset.card) ∧
    (∀ (name : String) (tree : SourceTree σ) (key : ProtocolKey),
      tree.source key = (ProtocolFactory.merged name tree.factories).lookup key) ∧
    ∀ (host : List (ProtocolSource σ)) (kinds : List Kind) (key : ProtocolKey),
      (∀ others : List Kind, (∀ kind, kind ∈ kinds ↔ kind ∈ others) →
        (withBuiltins host kinds).resolve key = (withBuiltins host others).resolve key) ∧
      (∀ before source after protocol, host = before ++ source :: after →
        (∀ earlier ∈ before, earlier key = none) → source key = some protocol →
        (withBuiltins host kinds).resolve key = .ok protocol) ∧
      ((∀ source ∈ host, source key = none) →
        (withBuiltins host kinds).resolve key = (withBuiltins [] kinds).resolve key) := by
  refine ⟨fun name calls => ⟨fun key protocol => ProtocolFactory.lookup_built_eq_some_iff,
    ProtocolFactory.size_built name calls⟩, SourceTree.source_eq_merged, ?_⟩
  intro host kinds key
  refine ⟨?_, ?_, resolve_withBuiltins_of_unknown kinds⟩
  · intro others hkinds
    exact resolve_withBuiltins_of_mem_iff host hkinds key
  · rintro before source after protocol rfl hbefore hsource
    exact resolve_withBuiltins_of_host kinds hbefore hsource

/-! A host that registers two protocols for its exchange rate. -/

def exchangeRate : ProtocolKey := ⟨.custom "rate", .scalar .int⟩

def rateOf (rate : Int64) : Protocol Unit := .builtin fun _ _ _ => return .int rate

def rateHost : ProtocolFactory Unit :=
  .built "host"
    [.one exchangeRate (rateOf 10), .underTags [.custom "rate"] (.scalar .int) (rateOf 20)]

theorem first_registration_wins_rate :
    rateHost.lookup exchangeRate = some (rateOf 10) ∧ rateHost.size = 1 ∧
      (withBuiltins [(ProtocolFactory.empty "none").lookup, rateHost.lookup]
        [.scalar .int]).resolve exchangeRate = .ok (rateOf 10) ∧
      (withBuiltins [rateHost.lookup] [.bool, .scalar .int, .bool]).resolve ⟨.const, .bool⟩ =
        (withBuiltins [rateHost.lookup] [.scalar .int, .bool]).resolve ⟨.const, .bool⟩ ∧
      (withBuiltins [rateHost.lookup] [.bool]).resolve ⟨.const, .bool⟩ =
        (withBuiltins [] [.bool]).resolve ⟨.const, .bool⟩ := by
  obtain ⟨hfactories, -, hchains⟩ := @first_registration_wins Unit
  have hlookup : rateHost.lookup exchangeRate = some (rateOf 10) :=
    ((hfactories _ _).1 _ _).2 ⟨[], _, rfl, List.not_mem_nil⟩
  refine ⟨hlookup, ((hfactories _ _).2).trans (by decide), ?_, ?_, ?_⟩
  · exact (hchains _ _ _).2.1 [(ProtocolFactory.empty "none").lookup] _ [] _ rfl
      (by simp [ProtocolFactory.empty, ProtocolFactory.lookup]) hlookup
  · exact (hchains _ _ _).1 _ fun kind => by simp [or_comm]
  · exact (hchains _ _ _).2.2 (by simp; rfl)

end ProtocolChain

end ReportCalc
