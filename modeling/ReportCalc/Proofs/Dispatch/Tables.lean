import ReportCalc.Dispatch.Builtin
import ReportCalc.Proofs.Dispatch.Registration

/-!
# What the tables hold

The table of a kind has exactly the tags that are listed for the kind, each with the rule of the tag
(`lookup_builtinFactory_eq_some_iff`, `BuiltinRule.ofTag`). The tables of different kinds have no
key in common, so a chain finds a protocol of the host, or what the one table of the key's kind
has (`ProtocolChain.lookup_withBuiltins_eq`).
-/

namespace ReportCalc

variable {σ : Type}

/-- The rule of the built-in operations with this tag. -/
def BuiltinRule.ofTag : OperationTag → BuiltinRule
  | .const => BuiltinRule.const
  | .cellValue => BuiltinRule.cellValue
  | .hasValue => BuiltinRule.hasValue
  | .ifThenElse => BuiltinRule.conditional
  | .andAlso | .orElse => BuiltinRule.logic
  | .not => BuiltinRule.not
  | .compare => BuiltinRule.compare
  | .sum | .subtract | .multiply | .divide => BuiltinRule.arithmetic
  | .withMessage => BuiltinRule.withMessage
  | .validate => BuiltinRule.validate
  | .checkAvailability => BuiltinRule.checkAvailability
  | .validity => BuiltinRule.validity
  | .availability => BuiltinRule.availability
  | .abort | .notApplicable => BuiltinRule.signal
  | .custom _ => fun _ _ op => BuiltinRule.unexpected "built-in" op

/-- The built-in protocol of the operations with this tag. -/
def Protocol.ofTag (tag : OperationTag) : Protocol σ := .builtin (BuiltinRule.ofTag tag)

/-- Whether operations with the tag compute with numbers. -/
def OperationTag.isArithmetic : OperationTag → Bool
  | .sum | .subtract | .multiply | .divide => true
  | _ => false

/-- What is listed for a kind is the rule of each of its tags. No tag is a host's, and those of
arithmetic are listed for numbers only. -/
theorem spec_of_mem_builtinProtocols {kind : Kind} {entry : List OperationTag × Protocol σ}
    (h : entry ∈ builtinProtocols kind) {tag : OperationTag} (htag : tag ∈ entry.1) :
    entry.2 = .ofTag tag ∧ tag ∈ OperationTag.builtin ∧
      (tag.isArithmetic = true → kind.isNumeric = true) := by
  unfold builtinProtocols builtinExtras at h
  split at h <;>
    simp only [List.cons_append, List.nil_append, List.append_nil, List.mem_cons, List.not_mem_nil,
      or_false] at h <;>
    rcases h with rfl | rfl | rfl | rfl | h
  all_goals try rcases h with rfl | rfl | rfl | rfl
  all_goals
    simp only [List.mem_cons, List.not_mem_nil, or_false] at htag
    rcases htag with rfl | rfl | rfl | rfl
  all_goals
    first
    | exact ⟨rfl, by decide, fun _ => rfl⟩
    | exact ⟨rfl, by decide, nofun⟩

theorem eq_ofTag_of_mem_builtinProtocols {kind : Kind} {entry : List OperationTag × Protocol σ}
    (h : entry ∈ builtinProtocols kind) {tag : OperationTag} (htag : tag ∈ entry.1) :
    entry.2 = .ofTag tag :=
  (spec_of_mem_builtinProtocols h htag).1

/-- The operations whose tag is listed for their kind: all but those of hosts, arithmetic on numbers
only. -/
theorem Operation.exists_mem_builtinProtocols_iff {op : Operation} :
    (∃ entry ∈ (builtinProtocols op.kind : List (List OperationTag × Protocol σ)),
        op.tag ∈ entry.1) ↔
      (∀ name result args payload, op ≠ .custom name result args payload) ∧
        (op.tag.isArithmetic = true → op.kind.isNumeric = true) := by
  -- four entries that every kind has, and after them those of the kind
  have every {tag : OperationTag} (kind : Kind)
      (htag : tag ∈ [OperationTag.const, .cellValue, .ifThenElse, .abort, .notApplicable]) :
      ∃ entry ∈ (builtinProtocols kind : List (List OperationTag × Protocol σ)),
        tag ∈ entry.1 := by
    simp only [List.mem_cons, List.not_mem_nil, or_false] at htag
    rcases htag with rfl | rfl | rfl | rfl | rfl <;> simp [builtinProtocols]
  have number {tag : OperationTag} {kind : Kind} (hkind : kind.isNumeric = true)
      (htag : tag ∈ [OperationTag.sum, .subtract, .multiply, .divide]) :
      ∃ entry ∈ (builtinProtocols kind : List (List OperationTag × Protocol σ)),
        tag ∈ entry.1 := by
    refine ⟨([.sum, .subtract, .multiply, .divide], .builtin BuiltinRule.arithmetic), ?_, htag⟩
    refine List.mem_append_right _ ?_
    cases kind with
    | scalar s | optional s => cases s <;> first | exact List.mem_singleton_self _ | cases hkind
    | _ => cases hkind
  constructor
  · rintro ⟨entry, hentry, htag⟩
    obtain ⟨-, hbuiltin, hnumeric⟩ := spec_of_mem_builtinProtocols hentry htag
    refine ⟨?_, hnumeric⟩
    rintro name result args payload rfl
    simp [tag, OperationTag.builtin] at hbuiltin
  · rintro ⟨hcustom, hnumeric⟩
    cases op with
    | const | cellValue | ifThenElse | abort | notApplicable => exact every _ (by simp [tag])
    | sum | subtract | multiply | divide => exact number (hnumeric rfl) (by simp [tag])
    | custom name result args payload => exact absurd rfl (hcustom name result args payload)
    | _ => simp [kind, tag, builtinProtocols, builtinExtras]

/-! ## One table -/

/-- The table of a kind is built by one call for each of its protocols. -/
theorem builtinFactory_eq_built (kind : Kind) :
    (builtinFactory kind : ProtocolFactory σ) =
      .built ("builtin:" ++ kind.display)
        ((builtinProtocols kind).map fun entry => .underTags entry.1 kind entry.2) := by
  rw [ProtocolFactory.built, List.foldl_map]
  rfl

/-- What the calls register are the rules of the tags that are listed for the kind. -/
theorem mem_builtinEntries_iff {kind : Kind} {key : ProtocolKey} {protocol : Protocol σ} :
    (key, protocol) ∈ ((builtinProtocols kind).map fun entry =>
        Registration.underTags entry.1 kind entry.2).flatMap Registration.entries ↔
      key.result = kind ∧ protocol = .ofTag key.tag ∧
        ∃ entry ∈ builtinProtocols (σ := σ) kind, key.tag ∈ entry.1 := by
  rw [List.flatMap_map, List.mem_flatMap]
  constructor
  · rintro ⟨entry, hentry, hmem⟩
    obtain ⟨tag, htag, heq⟩ := List.mem_map.1 hmem
    cases heq
    exact ⟨rfl, eq_ofTag_of_mem_builtinProtocols hentry htag, entry, hentry, htag⟩
  · rintro ⟨rfl, rfl, entry, hentry, htag⟩
    refine ⟨entry, hentry, List.mem_map.2 ⟨key.tag, htag, ?_⟩⟩
    rw [eq_ofTag_of_mem_builtinProtocols hentry htag]

/-- The table of a kind has the rules of the tags that are listed for the kind, and nothing
else. -/
theorem lookup_builtinFactory_eq_some_iff {kind : Kind} {key : ProtocolKey}
    {protocol : Protocol σ} :
    (builtinFactory kind).lookup key = some protocol ↔
      key.result = kind ∧ protocol = .ofTag key.tag ∧
        ∃ entry ∈ builtinProtocols (σ := σ) kind, key.tag ∈ entry.1 := by
  rw [builtinFactory_eq_built]
  constructor
  · intro h
    obtain ⟨before, after, hentries, -⟩ := ProtocolFactory.lookup_built_eq_some_iff.1 h
    exact mem_builtinEntries_iff.1 (hentries ▸ List.mem_append_right _ (List.mem_cons_self ..))
  · intro h
    have hmem := mem_builtinEntries_iff.2 h
    obtain ⟨first, hfirst⟩ := Option.ne_none_iff_exists'.1 fun hnone =>
      ProtocolFactory.lookup_built_eq_none_iff.1 hnone (List.mem_map_of_mem hmem)
    obtain ⟨before, after, hentries, -⟩ := ProtocolFactory.lookup_built_eq_some_iff.1 hfirst
    have hrule := mem_builtinEntries_iff.1
      (hentries ▸ List.mem_append_right before (List.mem_cons_self ..))
    rw [hfirst, hrule.2.1, h.2.1]

theorem lookup_builtinFactory_of_ne {kind : Kind} {key : ProtocolKey} (h : key.result ≠ kind) :
    (builtinFactory kind : ProtocolFactory σ).lookup key = none :=
  Option.eq_none_iff_forall_ne_some.2 fun _ hfound =>
    h (lookup_builtinFactory_eq_some_iff.1 hfound).1

/-! ## Chains -/

namespace ProtocolChain

/-- Of the tables of several kinds only that of the kind of the key can have it. -/
theorem findSome?_builtinFactory (kinds : List Kind) (key : ProtocolKey) :
    (kinds.map fun kind => (builtinFactory kind : ProtocolFactory σ).lookup).findSome? (· key) =
      if key.result ∈ kinds then (builtinFactory key.result).lookup key else none := by
  induction kinds with
  | nil => rfl
  | cons kind rest ih =>
    rw [List.map_cons, List.findSome?_cons, ih]
    by_cases heq : key.result = kind
    · subst heq
      rw [if_pos (List.mem_cons_self ..)]
      cases hfound : (builtinFactory key.result : ProtocolFactory σ).lookup key with
      | none => exact ite_self _
      | some protocol => rfl
    · rw [lookup_builtinFactory_of_ne heq]
      simp only [List.mem_cons, heq, false_or]

/-- What the host knows, and otherwise what the table of the kind of the key has, if there is
one. -/
theorem lookup_withBuiltins_eq (host : List (ProtocolSource σ)) (kinds : List Kind)
    (key : ProtocolKey) :
    (withBuiltins host kinds).lookup key =
      (host.findSome? (· key)).or
        (if key.result ∈ kinds then (builtinFactory key.result).lookup key else none) := by
  rw [lookup, withBuiltins, List.findSome?_append, findSome?_builtinFactory]

/-- A chain knows every tag that is listed for a kind that it has a table for, whatever the sources
of the host. -/
theorem knows_withBuiltins {host : List (ProtocolSource σ)} {kinds : List Kind} {kind : Kind}
    (hkind : kind ∈ kinds) {entry : List OperationTag × Protocol σ}
    (h : entry ∈ builtinProtocols kind) {tag : OperationTag} (htag : tag ∈ entry.1) :
    (withBuiltins host kinds).knows ⟨tag, kind⟩ = true := by
  rw [knows, lookup_withBuiltins_eq, if_pos hkind,
    lookup_builtinFactory_eq_some_iff.2 ⟨rfl, rfl, entry, h, htag⟩, Option.isSome_or,
    Option.isSome_some, Bool.or_true]

/-- A chain finds a protocol of the host or the rule of the tag. -/
theorem lookup_withBuiltins {host : List (ProtocolSource σ)} {kinds : List Kind}
    {key : ProtocolKey} {protocol : Protocol σ}
    (h : (withBuiltins host kinds).lookup key = some protocol) :
    (∃ source ∈ host, source key = some protocol) ∨ protocol = .ofTag key.tag := by
  rw [lookup_withBuiltins_eq, Option.or_eq_some_iff] at h
  rcases h with hhost | ⟨-, hbuiltin⟩
  · exact .inl (List.exists_of_findSome?_eq_some hhost)
  · split at hbuiltin
    · exact .inr (lookup_builtinFactory_eq_some_iff.1 hbuiltin).2.1
    · cases hbuiltin

/-- Every protocol that the chain finds is the rule of its tag. -/
def IsBuiltin (chain : ProtocolChain σ) : Prop :=
  ∀ key protocol, chain.lookup key = some protocol → protocol = .ofTag key.tag

theorem isBuiltin_withBuiltins (kinds : List Kind) :
    (withBuiltins [] kinds : ProtocolChain σ).IsBuiltin := by
  intro key protocol h
  rcases lookup_withBuiltins h with ⟨_, hsource, -⟩ | rfl
  · cases hsource
  · rfl

end ProtocolChain

end ReportCalc
