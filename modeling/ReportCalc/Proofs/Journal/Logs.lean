import ReportCalc.Journal
import Mathlib.Data.List.Basic

/-!
# The logs of a journal

Appending an entry extends one log and leaves the others as they are, and starting a log anew
concerns that log only. A pass clears the logs of all cells (`Journal.log_clearLogs`), and from then
on its journal only grows (`Journal.Grows`).
-/

namespace ReportCalc

variable {α : Type} {kind : LogKind α} {j k l : Journal} {a : CellAddress} {e : JournalEntry}

/-! ## The log of each phase -/

/-- What a phase records of a cell. -/
abbrev Phase.Outcome : Phase → Type
  | .execution => ExecutionOutcome
  | .validation => ValidationOutcome
  | .availability => AvailabilityOutcome

instance : (phase : Phase) → PassContent phase.Outcome
  | .execution => inferInstanceAs (PassContent ExecutionOutcome)
  | .validation => inferInstanceAs (PassContent ValidationOutcome)
  | .availability => inferInstanceAs (PassContent AvailabilityOutcome)

/-- The logs into which a phase records. -/
def Phase.logKind : (phase : Phase) → LogKind phase.Outcome
  | .execution => .executions
  | .validation => .validations
  | .availability => .availabilities

@[simp] theorem Phase.phase_logKind (phase : Phase) : phase.logKind.phase = phase := by
  cases phase <;> rfl

/-- The log of a cell for a phase. -/
def Journal.logOf (j : Journal) (phase : Phase) (a : CellAddress) : EventLog phase.Outcome :=
  j.log phase.logKind a

namespace Journal

/-! ## Appending -/

/-- The event of an entry in the log of a cell, if the entry belongs there. -/
def eventIn (kind : LogKind α) (a : CellAddress) (e : JournalEntry) : Option (Event α) :=
  if e.address = a then kind.event? e.record else none

theorem events_log : (j.log kind a).events = j.entries.filterMap (eventIn kind a) := rfl

theorem eventIn_eq_none (h : e.node ≠ ⟨a, kind.phase⟩) : eventIn kind a e = none := by
  unfold eventIn
  split
  · next haddress =>
    subst haddress
    exact kind.event?_eq_none fun hphase => h (by rw [JournalEntry.node, hphase])
  · rfl

theorem eventIn_record (event : Event α) : eventIn kind a ⟨a, kind.record event⟩ = some event := by
  rw [eventIn, if_pos rfl, kind.event?_record]

theorem events_log_append : ((j.append e).log kind a).events =
    (j.log kind a).events ++ (eventIn kind a e).toList := by
  rw [events_log, events_log, append, List.filterMap_append]
  cases h : eventIn kind a e <;> simp [h]

theorem log_append_of_ne (h : e.node ≠ ⟨a, kind.phase⟩) :
    (j.append e).log kind a = j.log kind a := by
  refine congrArg EventLog.mk (events_log_append.trans ?_)
  rw [eventIn_eq_none h, Option.toList_none, List.append_nil]
  rfl

theorem log_push (event : Event α) :
    (j.push kind a event).log kind a = (j.log kind a).push event := by
  refine congrArg EventLog.mk (events_log_append.trans ?_)
  rw [eventIn_record, Option.toList_some]

theorem node_record (event : Event α) :
    (⟨a, kind.record event⟩ : JournalEntry).node = ⟨a, kind.phase⟩ := by
  rw [JournalEntry.node, kind.phase_record]

/-! ## Starting anew -/

theorem log_restart_of_ne (h : e.node ≠ ⟨a, kind.phase⟩) :
    (j.restart e).log kind a = j.log kind a := by
  rw [restart, log_append_of_ne h]
  refine congrArg EventLog.mk ?_
  rw [List.filterMap_filter]
  refine List.filterMap_congr fun d _ => ?_
  by_cases hd : d.node = e.node
  · simp only [hd, ne_eq, not_true_eq_false, decide_false, Bool.false_eq_true, if_false]
    exact (eventIn_eq_none (hd ▸ h)).symm
  · simp [hd]

theorem log_restart (event : Event α) :
    (j.restart ⟨a, kind.record event⟩).log kind a = .single event := by
  refine congrArg EventLog.mk (events_log_append.trans ?_)
  rw [eventIn_record, Option.toList_some]
  refine congrArg (· ++ [event]) (List.filterMap_eq_nil_iff.2 fun d hd => eventIn_eq_none ?_)
  rw [← node_record event]
  simpa using (List.mem_filter.1 hd).2

/-- Of the entries with which logs start anew, the ones of a log decide what it holds. -/
theorem log_foldl_restart {event : Event α} {entries : List JournalEntry}
    (honly : ∀ d ∈ entries, d.node = ⟨a, kind.phase⟩ → d = ⟨a, kind.record event⟩)
    (hmem : ⟨a, kind.record event⟩ ∈ entries) :
    (entries.foldl restart j).log kind a = .single event := by
  have kept : ∀ (rest : List JournalEntry) (j : Journal),
      (∀ d ∈ rest, d.node = ⟨a, kind.phase⟩ → d = ⟨a, kind.record event⟩) →
        j.log kind a = .single event → (rest.foldl restart j).log kind a = .single event := by
    intro rest
    induction rest with
    | nil => exact fun _ _ h => h
    | cons d rest ih =>
      intro j honly h
      refine ih _ (fun d hd => honly d (List.mem_cons_of_mem _ hd)) ?_
      by_cases hd : d.node = ⟨a, kind.phase⟩
      · rw [honly d (List.mem_cons_self ..) hd, log_restart]
      · rw [log_restart_of_ne hd, h]
  induction entries generalizing j with
  | nil => cases hmem
  | cons d rest ih =>
    have hrest := fun d hd => honly d (List.mem_cons_of_mem _ hd)
    rcases List.mem_cons.1 hmem with rfl | hmem
    · exact kept rest _ hrest (log_restart event)
    · exact ih hrest hmem

end Journal

/-! ## The start of a pass -/

/-- Whether a cell has the log of a phase: only operation cells have executions, and only value
cells have the other logs. -/
def Cell.hasLog (cell : Cell) : Phase → Bool
  | .execution => cell.operation?.isSome
  | .validation | .availability => cell.rules?.isSome

/-- The event with which a pass starts a log anew. -/
def PassContent.marker [PassContent α] (reason : String) (time : DateTime) : Event α :=
  ⟨time, cleared reason⟩

namespace Journal

theorem mem_markers_iff {reason : String} {time : DateTime} {cell : Cell} :
    e ∈ markers reason time a cell ↔ ∃ phase : Phase, cell.hasLog phase = true ∧
      e = ⟨a, phase.logKind.record (PassContent.marker reason time)⟩ := by
  constructor
  · intro h
    rcases List.mem_append.1 h with h | h
    · split at h
      · next hlog => exact ⟨.execution, hlog, List.mem_singleton.1 h⟩
      · cases h
    · split at h
      · next hlog =>
        simp only [List.mem_cons, List.not_mem_nil, or_false] at h
        rcases h with h | h
        · exact ⟨.validation, hlog, h⟩
        · exact ⟨.availability, hlog, h⟩
      · cases h
  · rintro ⟨phase, hlog, rfl⟩
    cases phase with
    | execution =>
      refine List.mem_append_left _ ?_
      rw [if_pos (show cell.operation?.isSome = true from hlog)]
      exact List.mem_singleton_self _
    | validation =>
      refine List.mem_append_right _ ?_
      rw [if_pos (show cell.rules?.isSome = true from hlog)]
      exact List.mem_cons_self ..
    | availability =>
      refine List.mem_append_right _ ?_
      rw [if_pos (show cell.rules?.isSome = true from hlog)]
      exact List.mem_cons_of_mem _ (List.mem_cons_self ..)

/-- After the start of a pass every log holds the marker only. -/
theorem logOf_clearLogs {r : Report} {reason : String} {time : DateTime} {phase : Phase}
    {cell : Cell} (hcell : (a, cell) ∈ r.cells) (hlog : cell.hasLog phase = true) :
    (j.clearLogs r reason time).logOf phase a = .single (PassContent.marker reason time) := by
  refine log_foldl_restart (fun d hd hnode => ?_) ?_
  · obtain ⟨⟨b, other⟩, -, hd⟩ := List.mem_flatMap.1 hd
    obtain ⟨phase', -, rfl⟩ := mem_markers_iff.1 hd
    rw [node_record, Phase.phase_logKind, Phase.phase_logKind] at hnode
    cases hnode
    rfl
  · exact List.mem_flatMap.2 ⟨(a, cell), hcell, mem_markers_iff.2 ⟨phase, hlog, rfl⟩⟩

/-! ## Growth -/

/-- The second journal continues the first, with entries in these logs only. -/
def Grows (s : Node → Prop) (j k : Journal) : Prop :=
  ∃ added, k.entries = j.entries ++ added ∧ ∀ e ∈ added, s e.node

namespace Grows

variable {s t : Node → Prop}

theorem refl (s : Node → Prop) (j : Journal) : j.Grows s j := ⟨[], by simp, List.forall_mem_nil _⟩

theorem append (h : s e.node) : j.Grows s (j.append e) := ⟨[e], rfl, by simpa using h⟩

theorem trans (hjk : j.Grows s k) (hkl : k.Grows s l) : j.Grows s l := by
  obtain ⟨added, hk, hadded⟩ := hjk
  obtain ⟨more, hl, hmore⟩ := hkl
  refine ⟨added ++ more, by rw [hl, hk, List.append_assoc], fun e he => ?_⟩
  rcases List.mem_append.1 he with he | he
  · exact hadded e he
  · exact hmore e he

theorem mono (h : j.Grows s k) (hst : ∀ n, s n → t n) : j.Grows t k := by
  obtain ⟨added, hk, hadded⟩ := h
  exact ⟨added, hk, fun e he => hst _ (hadded e he)⟩

/-- The logs of other nodes stay as they are. -/
theorem log_eq (h : j.Grows s k) (ha : ¬ s ⟨a, kind.phase⟩) : k.log kind a = j.log kind a := by
  obtain ⟨added, hk, hadded⟩ := h
  have none : added.filterMap (eventIn kind a) = [] :=
    List.filterMap_eq_nil_iff.2 fun e he => eventIn_eq_none fun hnode => ha (hnode ▸ hadded e he)
  refine congrArg EventLog.mk ?_
  rw [hk, List.filterMap_append]
  exact (congrArg _ none).trans (List.append_nil _)

/-- What a log holds already stays at its start. -/
theorem prefix_log (h : j.Grows s k) :
    (j.log kind a).events <+: (k.log kind a).events := by
  obtain ⟨added, hk, -⟩ := h
  exact ⟨_, by rw [events_log, events_log, hk, List.filterMap_append]⟩

end Grows

end Journal

end ReportCalc
