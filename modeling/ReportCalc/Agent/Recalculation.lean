import ReportCalc.Agent.Basic
import ReportCalc.Dispatch.Builtin
import ReportCalc.Operation.Weight

/-!
# Recalculation

A recalculation runs passes over a report. Every pass starts the journal anew and visits the cells
in declaration order once for each phase: operations, validation chains, availability chains. When
the last phase disables inputs that still hold a value, and every verdict is known, those values
are cleared and another pass follows (`recalcRounds`).
-/

namespace ReportCalc

variable {σ : Type} {m : Type → Type}

/-- What a recalculation did: the number of passes, the inputs that it cleared because they were
disabled, and the cells that failed in the last pass. -/
structure RecalcSummary where
  passes : Nat
  clearedInputs : List String
  failedCells : List String
  deriving DecidableEq

/-- Sources that are asked before the built-in ones, and further kinds for the built-in ones. -/
structure RecalcOptions (σ : Type) where
  sources : List (ProtocolSource σ)
  kinds : List Kind

def RecalcOptions.none : RecalcOptions σ := ⟨[], []⟩

/-- Why the logs are cleared at the start of a pass. -/
def passReason : String := "recalculation"

/-- Why the value of a disabled input is cleared. -/
def disabledReason : String := "cell disabled"

/-! ## Phases -/

def Phase.concerns (phase : Phase) (cell : Cell) : Bool :=
  match phase with
  | .execution => cell.operation?.isSome
  | .validation => cell.validation?.isSome
  | .availability => cell.availability?.isSome

def Phase.visit [Interruptible m] (phase : Phase) (access : Access m) (cx : Context)
    (target : Resolved) : m Unit :=
  match phase with
  | .execution => do let _ ← access.execute cx target
  | .validation => do let _ ← access.validate cx target
  | .availability => do let _ ← access.check cx target

/-- The cells that take part in a phase, in declaration order. -/
def Report.targets (r : Report) (phase : Phase) : List Resolved :=
  (r.cells.filter fun (_, cell) => phase.concerns cell).map fun (a, cell) => ⟨a, cell⟩

def Phase.run [Interruptible m] (phase : Phase) (access : Access m) (cx : Context)
    (targets : List Resolved) : m Unit :=
  targets.forM (phase.visit access cx)

/-- How much deeper than the nodes of a report evaluations may nest: a cell may read itself again
and again as long as the host's protocols do not let it settle. Nothing in the rules of evaluation
sets this bound; there is one, and it is large, so that evaluation is a function whatever the host
does. What is proved of protocols of the host is about evaluations within it: one that nests deeper
ends with `Interrupt.outOfFuel`, which is no error of an operation and is recorded nowhere. -/
def hostDepth : Nat := 1000000

/-- How deep evaluations of a report may nest. -/
def Report.evaluationDepth (r : Report) : Nat :=
  r.cells.foldr (fun (_, cell) total => cell.weight + total) hostDepth

/-- Where the cells of a report are visited in a phase. -/
def ProtocolChain.context (chain : ProtocolChain σ) (report : Report) (index : ReportIndex)
    (time : DateTime) (phase : Phase) : Context :=
  ⟨report, index, chain.size, chain.knows, phase, time, none⟩

/-- One phase of a pass: it visits the cells that take part in it in declaration order. -/
def runPhase [Recording m] (ev : Context → Operation → m Value) (cx : Context) : m Unit :=
  cx.phase.run (.recorded ev) cx (cx.report.targets cx.phase)

def runPass [Recording m] (ev : Context → Operation → m Value) (report : Report) (time : DateTime)
    (context : Phase → Context) : m Unit := do
  Recording.modifyJournal (·.clearLogs report passReason time)
  Phase.all.forM fun phase => runPhase ev (context phase)

/-- What a pass over a report makes of a world. -/
abbrev Pass (σ : Type) := Report → World σ → Except Interrupt Unit × World σ

def ProtocolChain.pass (chain : ProtocolChain σ) (index : ReportIndex) (time : DateTime) : Pass σ :=
  fun report w =>
    (runPass (chain.evaluator report.evaluationDepth).run report time
      (chain.context report index time)).run w

/-- The passes that are run as tasks, which are resumed until they are done. -/
def ProtocolChain.taskPass (chain : ProtocolChain σ) (index : ReportIndex) (time : DateTime) :
    Pass σ :=
  fun report w =>
    (runPass (chain.evaluator report.evaluationDepth).task report time
      (chain.context report index time)).run w

/-! ## Findings -/

/-- What a pass leaves behind: the cells that failed, whether some verdict is unknown, and the
disabled inputs that still hold a value. -/
structure Findings where
  failedCells : List String
  unknownVerdict : Bool
  disabledInputs : List CellAddress

namespace Journal

/-- Whether the execution, the validation or the availability check of a cell failed. -/
def hasFailed (j : Journal) (a : CellAddress) (cell : Cell) : Bool :=
  let execution := match j.lastOutcome? a with
    | some (.failed _) => cell.operation?.isSome
    | _ => false
  let availability := match (j.availabilities a).last? with
    | some ⟨_, .failed _⟩ => cell.availability?.isSome
    | _ => false
  cell.rules?.isSome &&
    (execution || j.validationState a cell == .failed || availability)

/-- Whether the validity or the availability of a value cell is unknown. -/
def hasUnknownVerdict (j : Journal) (a : CellAddress) (cell : Cell) : Bool :=
  cell.rules?.isSome &&
    (j.validationState a cell == .unknown || j.validationState a cell == .failed ||
      j.availabilityState a cell == .unknown)

def holdsDisabledValue (j : Journal) (a : CellAddress) (cell : Cell) : Bool :=
  j.availabilityState a cell == .disabled &&
    cell.input?.any fun c => c.value.any (!·.isNull)

/-- What a pass left behind. -/
def findings (j : Journal) (r : Report) : Findings where
  failedCells :=
    (r.cells.filter fun (a, cell) => j.hasFailed a cell).map fun (_, cell) => cell.label
  unknownVerdict := r.cells.any fun (a, cell) => j.hasUnknownVerdict a cell
  disabledInputs :=
    (r.cells.filter fun (a, cell) => j.holdsDisabledValue a cell).map fun (a, _) => a

end Journal

/-- Whether no further pass follows. -/
def Findings.isFinal (f : Findings) : Bool := f.unknownVerdict || f.disabledInputs.isEmpty

/-! ## Clearing disabled inputs -/

/-- Clears the value of the input at an address, and gives its label. -/
def Report.clearInput (r : Report) (time : DateTime) (a : CellAddress) : Report × List String :=
  match r.focus? a with
  | some ⟨.input c, replace⟩ =>
    (replace (.input (c.clearValue disabledReason time)), [Cell.label (.input c)])
  | _ => (r, [])

def Report.clearInputs (r : Report) (time : DateTime) : List CellAddress → Report × List String
  | [] => (r, [])
  | a :: rest =>
    let (r, label) := r.clearInput time a
    let (r, labels) := r.clearInputs time rest
    (r, label ++ labels)

def Report.heldInputs (r : Report) : Nat :=
  r.cells.countP fun (_, cell) => cell.input?.any fun c => c.value.any (!·.isNull)

/-! ## The loop -/

/-- What a recalculation leaves behind, however it ends. -/
structure RecalcEnd (σ : Type) where
  result : Except Interrupt RecalcSummary
  report : Report
  world : World σ

/-- Runs passes until nothing is left to clear. Every further pass follows the clearing of a value,
so the number of held inputs bounds them. -/
def recalcRounds (pass : Pass σ) (config : Config) (time : DateTime) :
    Nat → Report → World σ → RecalcSummary → RecalcEnd σ
  | 0, report, world, _ => ⟨.error .outOfFuel, report, world⟩
  | rounds + 1, report, world, summary =>
    match pass report world with
    | (.error i, world) => ⟨.error i, report, world⟩
    | (.ok (), world) =>
      let findings := world.journal.findings report
      let passes := summary.passes + 1
      let summary := { summary with passes, failedCells := findings.failedCells }
      if findings.isFinal then ⟨.ok summary, report, world⟩
      else
        match config.maxPasses.filter (·.passes ≤ passes) with
        | some limit => ⟨.error (.error (.rerunLimitExceeded limit.passes)), report, world⟩
        | none =>
          let (report, labels) := report.clearInputs time findings.disabledInputs
          recalcRounds pass config time rounds report world
            { summary with clearedInputs := summary.clearedInputs ++ labels }

namespace Agent

/-- The kinds for which built-in protocols are there: the standard ones and the further ones of the
configuration and the options, each once. -/
def supportedKinds (config : Config) (options : RecalcOptions σ) : List Kind :=
  (config.extraKinds ++ options.kinds).foldl
    (fun kinds kind => if kind ∈ kinds then kinds else kinds ++ [kind]) Kind.standard

/-- The protocols of a recalculation: the host's first, then the built-in ones. -/
def protocolChain (config : Config) (options : RecalcOptions σ) : ProtocolChain σ :=
  .withBuiltins options.sources (supportedKinds config options)

/-- Recalculates the report with passes of some sort as of a time, which must be in UTC. The agent
and the state of the host are returned also when it fails, since what was recorded until then
stays. -/
def recalcBy (agent : Agent) (pass : Pass σ) (time : DateTime) (host : σ) :
    Except Interrupt RecalcSummary × Agent × σ :=
  match time.ensureUtc with
  | .error e => (.error (.error e), agent, host)
  | .ok () =>
    let done := recalcRounds pass agent.config time (agent.report.heldInputs + 1) agent.report
      ⟨agent.journal, host⟩ ⟨0, [], []⟩
    (done.result, { agent with report := done.report, journal := done.world.journal },
      done.world.host)

def recalc (agent : Agent) (options : RecalcOptions σ) (time : DateTime) (host : σ) :
    Except Interrupt RecalcSummary × Agent × σ :=
  agent.recalcBy ((protocolChain agent.config options).pass agent.index time) time host

def recalcTask (agent : Agent) (options : RecalcOptions σ) (time : DateTime) (host : σ) :
    Except Interrupt RecalcSummary × Agent × σ :=
  agent.recalcBy ((protocolChain agent.config options).taskPass agent.index time) time host

end Agent

end ReportCalc
