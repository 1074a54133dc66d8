import ReportCalc.Dispatch.Factory
import ReportCalc.Evaluation.Reading
import ReportCalc.Evaluation.Verdicts
import ReportCalc.Value.Arithmetic
import ReportCalc.Value.Comparison

/-!
# Built-in protocols

One table of protocols for each kind (`builtinFactory`). Every kind can be a constant, a cell read,
a choice or a signal; truth values add logic and comparison, numbers arithmetic, and the kinds of
rule chains the operations on chains and verdicts.
-/

namespace ReportCalc

variable {σ : Type}

/-- How operations of some kind are evaluated, in any monad that can be interrupted. -/
abbrev BuiltinRule := {m : Type → Type} → [Interruptible m] → Access m → Context → Operation →
  m Value

/-- The protocol that follows a rule, with the results that are recorded in the journal. -/
def Protocol.builtin (rule : BuiltinRule) : Protocol σ :=
  ⟨fun ev => rule (.recorded ev.run), fun ev => rule (.recorded ev.task)⟩

namespace BuiltinRule

variable {m : Type → Type} [Interruptible m]

/-- The error of a protocol that is asked for an operation it does not know. -/
def unexpected (protocol : String) (op : Operation) : m Value :=
  Eval.fail (.invalidOperation (protocol ++ " protocol cannot evaluate " ++ op.tag.display))

/-! ## Constants and signals -/

def const : BuiltinRule := fun _ _ op =>
  match op with
  | .const value _ => return value
  | op => unexpected "const" op

/-- Signals of the author of a report that a cell has no answer. -/
def signal : BuiltinRule := fun _ _ op =>
  match op with
  | .abort message _ => Eval.fail (.aborted message)
  | .notApplicable message _ => Eval.fail (.notApplicable message)
  | op => unexpected "signal" op

/-! ## Cells -/

def cellValue : BuiltinRule := fun access cx op =>
  match op with
  | .cellValue locator kind => ReportCalc.cellValue access cx locator kind
  | op => unexpected "cell value" op

def hasValue : BuiltinRule := fun access cx op =>
  match op with
  | .hasValue locator => do return .bool (← ReportCalc.hasValue access cx locator)
  | op => unexpected "has value" op

/-- Asking for the validity of a cell, once validation is under way. -/
def validity : BuiltinRule := fun access cx op =>
  match op with
  | .validity locator => do
    cx.requirePhase op [.validation, .availability] "Validation or AvailabilityCheck"
    return .validity (← validityOf access cx locator)
  | op => unexpected "get validity" op

/-- Asking for the availability of a cell, in the last phase only. -/
def availability : BuiltinRule := fun access cx op =>
  match op with
  | .availability locator => do
    cx.requirePhase op [.availability] "AvailabilityCheck"
    return .availability (← availabilityOf access cx locator)
  | op => unexpected "get availability" op

/-! ## Choice and logic -/

/-- The branch that the condition chooses; the other one is not evaluated. -/
def conditional : BuiltinRule := fun access cx op =>
  match op with
  | .ifThenElse condition whenTrue whenFalse _ => do
    if ← expectBool (← access.evaluate cx condition) "if condition" then
      access.evaluate cx whenTrue
    else
      access.evaluate cx whenFalse
  | op => unexpected "conditional" op

/-- Evaluates operands from the left up to the first one with the decisive truth value, and is
that value if there is one and the other otherwise. -/
def decideBy (ev : Operation → m Value) (decisive : Bool) : List Operation → m Value
  | [] => return .bool !decisive
  | operand :: rest => do
    if (← expectBool (← ev operand) "logical operand") == decisive then
      return .bool decisive
    else
      decideBy ev decisive rest

def logic : BuiltinRule := fun access cx op =>
  match op with
  | .andAlso operands => decideBy (access.evaluate cx) false operands
  | .orElse operands => decideBy (access.evaluate cx) true operands
  | op => unexpected "logic" op

def not : BuiltinRule := fun access cx op =>
  match op with
  | .not operand => do
    return .bool !(← expectBool (← access.evaluate cx operand) "not operand")
  | op => unexpected "not" op

/-- Comparison, the left operand first. -/
def compare : BuiltinRule := fun access cx op =>
  match op with
  | .compare left comparison right => do
    let left ← access.evaluate cx left
    let right ← access.evaluate cx right
    return .bool (← left.compare right comparison)
  | op => unexpected "compare" op

def withMessage : BuiltinRule := fun access cx op =>
  match op with
  | .withMessage condition message => do
    let holds ← expectBool (← access.evaluate cx condition) "message condition"
    match message with
    | some message =>
      return .boolWithMessage holds (← expectText (← access.evaluate cx message) "message")
    | none => return .boolWithMessage holds none
  | op => unexpected "with message" op

/-! ## Arithmetic -/

/-- Evaluates all operands, the first error ending the evaluation, and combines them. -/
def foldOperands (ev : Operation → m Value) (arithmetic : Arithmetic) (operands : List Operation)
    (kind : Kind) : m Value := do
  let values ← operands.mapM ev
  arithmetic.fold values kind

/-- Evaluates both operands and combines them. An absent operand leaves an optional result absent
and a plain one missing, which is an error on the cell with the label. -/
def combineOperands (ev : Operation → m Value) (label : String) (arithmetic : Arithmetic)
    (left right : Operation) (kind : Kind) : m Value := do
  let left ← ev left
  let right ← ev right
  if (left.isNull || right.isNull) && !kind.isOptional then
    Eval.fail (.valueMissing label (arithmetic.display ++ " of a null operand"))
  else
    arithmetic.binary left right kind

/-- Sums, products, differences and quotients. -/
def arithmetic : BuiltinRule := fun access cx op =>
  let ev := access.evaluate cx
  match op with
  | .sum operands kind => foldOperands ev .add operands kind
  | .multiply operands kind => foldOperands ev .multiply operands kind
  | .subtract left right kind => combineOperands ev cx.currentLabel .subtract left right kind
  | .divide left right kind => combineOperands ev cx.currentLabel .divide left right kind
  | op => unexpected "arithmetic" op

/-! ## Rule chains -/

def validate : BuiltinRule := fun access cx op =>
  match op with
  | .validate chain => do return .validity (← validateChain (access.evaluate cx) chain)
  | op => unexpected "validate" op

def checkAvailability : BuiltinRule := fun access cx op =>
  match op with
  | .checkAvailability chain => do return .availability (← checkChain (access.evaluate cx) chain)
  | op => unexpected "check availability" op

end BuiltinRule

/-! ## The tables -/

/-- The protocols that a kind has beyond those of every kind. -/
def builtinExtras (kind : Kind) : List (List OperationTag × Protocol σ) :=
  match kind with
  | .scalar .bool => [([.hasValue], .builtin BuiltinRule.hasValue),
      ([.andAlso, .orElse], .builtin BuiltinRule.logic), ([.not], .builtin BuiltinRule.not),
      ([.compare], .builtin BuiltinRule.compare)]
  | .scalar .int | .scalar .decimal | .optional .int | .optional .decimal =>
    [([.sum, .subtract, .multiply, .divide], .builtin BuiltinRule.arithmetic)]
  | .boolWithMessage => [([.withMessage], .builtin BuiltinRule.withMessage)]
  | .validity => [([.validate], .builtin BuiltinRule.validate),
      ([.validity], .builtin BuiltinRule.validity)]
  | .availability => [([.checkAvailability], .builtin BuiltinRule.checkAvailability),
      ([.availability], .builtin BuiltinRule.availability)]
  | _ => []

def builtinProtocols (kind : Kind) : List (List OperationTag × Protocol σ) :=
  [([.const], .builtin BuiltinRule.const), ([.cellValue], .builtin BuiltinRule.cellValue),
    ([.ifThenElse], .builtin BuiltinRule.conditional),
    ([.abort, .notApplicable], .builtin BuiltinRule.signal)] ++ builtinExtras kind

def builtinFactory (kind : Kind) : ProtocolFactory σ :=
  (builtinProtocols kind).foldl (fun f (tags, protocol) => f.registerTags tags kind protocol)
    (.empty ("builtin:" ++ kind.display))

/-- The host's sources, and after them the built-in tables of the kinds. -/
def ProtocolChain.withBuiltins (host : List (ProtocolSource σ)) (kinds : List Kind) :
    ProtocolChain σ :=
  ⟨host ++ kinds.map fun kind => (builtinFactory kind).lookup⟩

end ReportCalc
