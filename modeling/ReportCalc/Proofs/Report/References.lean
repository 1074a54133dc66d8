import ReportCalc.Proofs.Operation.Operands
import ReportCalc.Proofs.Report.Inputs
import Mathlib.Algebra.GroupWithZero.Nat
import Mathlib.Logic.Relation

/-!
# References between cells

What a phase records of a cell may depend on what phases record of other cells: a node reads the
nodes that its operation or chain mentions (`Report.Reads`). A report without reference cycles is
acyclic, and in such a report the nodes below a node weigh less and less the further one goes
(`Report.Acyclic.depthBelow_add_le`). So evaluations nest no deeper than the report is large.
-/

namespace ReportCalc

/-- The cell that a locator means is in the report. -/
theorem ReportIndex.cellAt?_eq_of_resolve {index : ReportIndex} {r : Report} {locator : Locator}
    {current : Option CellAddress} {target : Resolved}
    (h : index.resolve r locator current = .ok target) :
    r.cellAt? target.address = some target.cell := by
  unfold resolve at h
  cases hlocate : index.locate r locator current with
  | error e =>
    rw [hlocate] at h
    cases h
  | ok a =>
    rw [hlocate] at h
    simp only [bind, Except.bind] at h
    split at h
    · next hcell =>
      cases h
      exact hcell
    · cases h

/-! ## Nodes -/

/-- What a phase evaluates: operations, validation chains or availability chains. -/
abbrev Phase.Rule : Phase → Type
  | .execution => Operation
  | .validation => ValidationRule
  | .availability => AvailabilityRule

/-- What a phase evaluates, as an operation. -/
def Phase.operation : (phase : Phase) → phase.Rule → Operation
  | .execution, op => op
  | .validation, chain => .validate chain
  | .availability, chain => .checkAvailability chain

namespace Cell

/-- What a phase evaluates for a cell: its operation or one of its chains. -/
def rule? (cell : Cell) : (phase : Phase) → Option phase.Rule
  | .execution => cell.operation?.map (·.operation)
  | .validation => cell.validation?
  | .availability => cell.availability?

/-- What a phase evaluates for a cell, as an operation. -/
def root? (cell : Cell) (phase : Phase) : Option Operation :=
  (cell.rule? phase).map phase.operation

variable {u : InputUpdate} {a : CellAddress} {cell : Cell} {phase : Phase}

theorem root?_eq {rule : phase.Rule} (h : cell.rule? phase = some rule) :
    cell.root? phase = some (phase.operation rule) := by rw [root?, h, Option.map_some]

@[simp] theorem rule?_update : (cell.update u a).rule? phase = cell.rule? phase := by
  cases phase <;> simp [rule?]

@[simp] theorem root?_update : (cell.update u a).root? phase = cell.root? phase := by simp [root?]

end Cell

namespace Report

variable {r : Report} {n m : Node}

/-- A node reads another when its operation or chain mentions a reference that, seen from its cell,
means the other. -/
def Reads (r : Report) (n m : Node) : Prop :=
  ∃ cell op ref target, r.cellAt? n.address = some cell ∧ cell.root? n.phase = some op ∧
    op.Mentions ref ∧
      (ReportIndex.build r).resolve r ref.locator (some n.address) = .ok target ∧
        m = ⟨target.address, ref.phase⟩

/-- No node reads itself, directly or through others. -/
def Acyclic (r : Report) : Prop := ∀ n, ¬ Relation.TransGen r.Reads n n

/-- A report is acyclic when every node is ranked above the nodes that it reads. -/
theorem acyclic_of_lt (rank : Node → Nat) (h : ∀ n m, r.Reads n m → rank m < rank n) :
    r.Acyclic := by
  intro n hcycle
  have below {k : Node} (hk : Relation.TransGen r.Reads n k) : rank k < rank n := by
    induction hk with
    | single hread => exact h _ _ hread
    | tail _ hread ih => exact Nat.lt_trans (h _ _ hread) ih
  exact Nat.lt_irrefl _ (below hcycle)

theorem reads_of_reads_update {u : InputUpdate} (h : r.WellFormed)
    (hread : (r.update u).Reads n m) : r.Reads n m := by
  obtain ⟨cell, op, ref, target, hcell, hroot, hmentions, htarget, rfl⟩ := hread
  rw [cellAt?_update h] at hcell
  obtain ⟨cell, hfound, rfl⟩ := Option.map_eq_some_iff.1 hcell
  rw [Cell.root?_update] at hroot
  obtain ⟨original, horiginal, rfl⟩ := ReportIndex.exists_resolve_of_update h htarget
  exact ⟨cell, op, ref, original, hfound, hroot, hmentions, horiginal, rfl⟩

/-- Some operation of the report asks for the value of the cell as one of this kind. -/
def AsksFor (r : Report) (b : CellAddress) (kind : Kind) : Prop :=
  ∃ a cell phase root locator target, r.cellAt? a = some cell ∧ cell.root? phase = some root ∧
    root.Contains (.cellValue locator kind) ∧
      (ReportIndex.build r).resolve r locator (some a) = .ok target ∧ target.address = b

/-- The values that are asked for do not depend on what inputs hold. -/
theorem asksFor_update {u : InputUpdate} (h : r.WellFormed) {b : CellAddress} {kind : Kind} :
    (r.update u).AsksFor b kind ↔ r.AsksFor b kind := by
  constructor
  · rintro ⟨a, cell, phase, root, locator, target, hcell, hroot, hasked, htarget, rfl⟩
    rw [cellAt?_update h] at hcell
    obtain ⟨cell, hfound, rfl⟩ := Option.map_eq_some_iff.1 hcell
    rw [Cell.root?_update] at hroot
    obtain ⟨original, horiginal, rfl⟩ := ReportIndex.exists_resolve_of_update h htarget
    exact ⟨a, cell, phase, root, locator, original, hfound, hroot, hasked, horiginal, rfl⟩
  · rintro ⟨a, cell, phase, root, locator, target, hcell, hroot, hasked, htarget, rfl⟩
    refine ⟨a, cell.update u a, phase, root, locator, target.update u, ?_, ?_, hasked, ?_, rfl⟩
    · rw [cellAt?_update h, hcell, Option.map_some]
    · rw [Cell.root?_update, hroot]
    · rw [ReportIndex.build_update, ReportIndex.resolve_update h, htarget]
      rfl

/-- References do not depend on what inputs hold. -/
theorem Acyclic.update {u : InputUpdate} (h : r.Acyclic) (hwf : r.WellFormed) :
    (r.update u).Acyclic := fun n hcycle =>
  h n (Relation.TransGen.mono (fun _ _ => reads_of_reads_update hwf) n n hcycle)

/-! ## Weights -/

/-- The weight of what is evaluated for a node. -/
def nodeWeight (r : Report) (n : Node) : Nat :=
  (r.cellAt? n.address).elim 0 fun cell => (cell.root? n.phase).elim 0 Operation.weight

theorem nodeWeight_eq {a : CellAddress} {phase : Phase} {cell : Cell} {rule : phase.Rule}
    (hcell : r.cellAt? a = some cell) (hrule : cell.rule? phase = some rule) :
    r.nodeWeight ⟨a, phase⟩ = (phase.operation rule).weight := by
  simp [nodeWeight, hcell, Cell.root?_eq hrule]

/-- The nodes of the cells of a report. -/
def nodes (r : Report) : List Node :=
  r.cells.flatMap fun (a, _) => Phase.all.map fun phase => ⟨a, phase⟩

theorem mem_nodes {a : CellAddress} {cell : Cell} (h : (a, cell) ∈ r.cells) (phase : Phase) :
    ⟨a, phase⟩ ∈ r.nodes := by
  refine List.mem_flatMap.2 ⟨(a, cell), h, List.mem_map.2 ⟨phase, ?_, rfl⟩⟩
  cases phase <;> decide

theorem Reads.mem_nodes (hwf : r.WellFormed) (h : r.Reads n m) : m ∈ r.nodes := by
  obtain ⟨_, _, _, target, _, _, _, htarget, rfl⟩ := h
  exact Report.mem_nodes ((mem_cells_iff hwf).2 (ReportIndex.cellAt?_eq_of_resolve htarget)) _

section Sums
variable {α : Type} {l : List α} {p q : α → Bool} {f : α → Nat}

private theorem sum_filter_le (h : ∀ x ∈ l, p x = true → q x = true) :
    ((l.filter p).map f).sum ≤ ((l.filter q).map f).sum := by
  induction l with
  | nil => exact Nat.le_refl _
  | cons x rest ih =>
    have ih := ih fun y hy => h y (List.mem_cons_of_mem _ hy)
    have hx := h x (List.mem_cons_self ..)
    cases hp : p x <;> cases hq : q x <;> simp only [List.filter_cons, hp, hq] at hx ⊢ <;> simp_all
    omega

private theorem sum_filter_add_le (h : ∀ x ∈ l, p x = true → q x = true) {x : α} (hmem : x ∈ l)
    (hp : p x = false) (hq : q x = true) :
    ((l.filter p).map f).sum + f x ≤ ((l.filter q).map f).sum := by
  obtain ⟨before, after, rfl⟩ := List.append_of_mem hmem
  have hbefore := sum_filter_le (f := f) fun y hy => h y (List.mem_append_left _ hy)
  have hafter := sum_filter_le (f := f) fun y hy =>
    h y (List.mem_append_right _ (List.mem_cons_of_mem _ hy))
  simp only [List.filter_append, List.filter_cons, hp, hq, List.map_append, List.sum_append]
  simp only [if_true, Bool.false_eq_true, if_false, List.map_cons, List.sum_cons]
  omega

end Sums

open Classical in
/-- The weight of all nodes with a property. -/
noncomputable def load (r : Report) (p : Node → Prop) : Nat :=
  ((r.nodes.filter fun n => decide (p n)).map r.nodeWeight).sum

/-- A property that a further node has, but otherwise implies the first, weighs that much more. -/
theorem load_add_le {p q : Node → Prop} (hpq : ∀ m, p m → q m) (hmem : n ∈ r.nodes) (hp : ¬ p n)
    (hq : q n) : r.load p + r.nodeWeight n ≤ r.load q :=
  sum_filter_add_le (by simpa using fun m _ => hpq m) hmem (by simpa using hp) (by simpa using hq)

/-- The nodes of a cell weigh as much as the cell. -/
theorem sum_nodeWeight_eq (hwf : r.WellFormed) {a : CellAddress} {cell : Cell}
    (h : (a, cell) ∈ r.cells) :
    ((Phase.all.map fun phase => (⟨a, phase⟩ : Node)).map r.nodeWeight).sum = cell.weight := by
  have hcell : r.cellAt? a = some cell := (mem_cells_iff hwf).1 h
  have operation : (cell.root? .execution).elim 0 Operation.weight =
      cell.operation?.elim 0 (·.operation.weight) := by
    rw [Cell.root?, Cell.rule?]
    cases cell.operation? <;> rfl
  have rules : (cell.root? .validation).elim 0 Operation.weight +
      (cell.root? .availability).elim 0 Operation.weight = cell.rules?.elim 0 (·.weight) := by
    simp only [Cell.root?, Cell.rule?, Cell.validation?, Cell.availability?, CellRules.weight]
    cases cell.rules? with
    | none => rfl
    | some rules =>
      obtain ⟨validation, availability⟩ := rules
      cases validation <;> cases availability <;> rfl
  simp only [Phase.all, List.map_cons, List.map_nil, List.sum_cons, List.sum_nil, nodeWeight, hcell,
    Option.elim_some, operation, Nat.add_zero, rules]
  rfl

theorem sum_nodeWeight_le_evaluationDepth (hwf : r.WellFormed) :
    (r.nodes.map r.nodeWeight).sum ≤ r.evaluationDepth := by
  suffices ∀ cells : List (CellAddress × Cell), (∀ e ∈ cells, e ∈ r.cells) →
      ((cells.flatMap fun (a, _) => Phase.all.map fun phase => ⟨a, phase⟩).map r.nodeWeight).sum ≤
        cells.foldr (fun (_, cell) total => cell.weight + total) hostDepth from
    this r.cells fun _ he => he
  intro cells
  induction cells with
  | nil => exact fun _ => Nat.zero_le _
  | cons e rest ih =>
    intro hcells
    have hrest := ih fun d hd => hcells d (List.mem_cons_of_mem _ hd)
    have heach := sum_nodeWeight_eq hwf (hcells e (List.mem_cons_self ..))
    simp only [List.flatMap_cons, List.map_append, List.sum_append, heach, List.foldr_cons]
    exact Nat.add_le_add_left hrest _

/-- All nodes together weigh no more than evaluations may nest. -/
theorem load_le_evaluationDepth (hwf : r.WellFormed) (p : Node → Prop) :
    r.load p ≤ r.evaluationDepth := by
  have all : r.load p ≤ ((r.nodes.filter fun _ => true).map r.nodeWeight).sum :=
    sum_filter_le fun _ _ _ => rfl
  rw [List.filter_true] at all
  exact Nat.le_trans all (sum_nodeWeight_le_evaluationDepth hwf)

/-- The weight of the nodes below a node. -/
noncomputable def depthBelow (r : Report) (n : Node) : Nat :=
  r.load (Relation.TransGen r.Reads n)

/-- What a node reads, and everything below that, is below the node. -/
theorem Acyclic.depthBelow_add_le (h : r.Acyclic) (hwf : r.WellFormed) (hread : r.Reads n m) :
    r.depthBelow m + r.nodeWeight m ≤ r.depthBelow n :=
  load_add_le (fun _ hm => .head hread hm) (hread.mem_nodes hwf) (h m) (.single hread)

theorem Acyclic.depthBelow_add_le_evaluationDepth (h : r.Acyclic) (hwf : r.WellFormed)
    (hmem : n ∈ r.nodes) : r.depthBelow n + r.nodeWeight n ≤ r.evaluationDepth :=
  Nat.le_trans (load_add_le (fun _ _ => trivial) hmem (h n) trivial)
    (load_le_evaluationDepth hwf fun _ => True)

end Report

end ReportCalc
