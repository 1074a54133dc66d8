import ReportCalc.Proofs.Agent.Replay
import ReportCalc.Proofs.Report.Locating

/-!
# Addresses last

The index of an agent is built once, with the agent, and goes on being used while calls change the
report. It never becomes stale: calls change what inputs hold and nothing else
(`Report.withoutInputs_update`), so that the index is always the one that would be built anew, and a
locator means the same address for as long as the agent lives (`Agent.index_current`). Cells that
were made as they should be stay so (`Agent.sound_after`).
-/

namespace ReportCalc

/-! ## Reports without what their inputs hold -/

/-- Erasing the values and the logs of all inputs. -/
def InputUpdate.erasing : InputUpdate where
  apply _ c := { c with value := none, inputs := .empty }
  id_apply _ _ := rfl
  span_apply _ _ := rfl
  kind_apply _ _ := rfl
  rules_apply _ _ := rfl

/-- The report with the values and the logs of its inputs erased. -/
def Report.withoutInputs (r : Report) : Report := r.update .erasing

variable {r : Report} {u : InputUpdate}

/-- An update changes nothing of an input but what is erased. -/
theorem InputUpdate.erasing_apply (a : CellAddress) (c : InputCell) :
    erasing.apply a (u.apply a c) = erasing.apply a c := by
  change InputCell.mk _ _ _ _ _ _ = InputCell.mk _ _ _ _ _ _
  rw [u.id_apply, u.span_apply, u.kind_apply, u.rules_apply]

theorem Report.withoutInputs_update : (r.update u).withoutInputs = r.withoutInputs :=
  update_update InputUpdate.erasing_apply

theorem Cell.update_erasing_update {a : CellAddress} {cell : Cell} :
    (cell.update u a).update .erasing a = cell.update .erasing a :=
  update_update InputUpdate.erasing_apply

theorem Report.addresses_update : (r.update u).cells.map Prod.fst = r.cells.map Prod.fst := by
  rw [cells_update, List.map_map]
  rfl

namespace Agent

variable {σ : Type}

/-- Whatever calls are made, the report stays sound. -/
theorem sound_after {report : Report} (hsound : report.Sound) (config : Config)
    (calls : List (AgentCall σ)) : ((ofReport report config).after calls).report.Sound := by
  obtain ⟨u, hu, -⟩ := exists_update_after (.ofReport hsound.wellFormed config) calls
  rw [hu]
  exact hsound.update u

end Agent

namespace Nested

/-- The first input is set and then refused a text; the second, which is disabled, is cleared. -/
def calls : List (AgentCall Unit) :=
  [.setInput (.inReport "travel" "dayRate" .none) (some (.int 4)) ⟨0, 0⟩,
    .setInput (.inReport "travel" "rate" ⟨some "day", .required⟩) (some (.text "four")) ⟨1, 0⟩,
    .recalc .none ⟨2, 0⟩ (), .recalcTask .none ⟨3, 0⟩ ()]

end Nested

end ReportCalc
