import ReportCalc.Evaluation.Context
import ReportCalc.Text.Quoted

/-!
# Protocol tables and chains

A `ProtocolFactory` is a named table of protocols by key, in which the first registration of a key
stays. A `ProtocolChain` asks its sources in order, and the first that knows a key answers.
-/

namespace ReportCalc

variable {σ : Type}

abbrev ProtocolSource (σ : Type) := ProtocolKey → Option (Protocol σ)

/-- A named table of protocols, in order of registration. -/
structure ProtocolFactory (σ : Type) where
  name : String
  entries : List (ProtocolKey × Protocol σ)

namespace ProtocolFactory

def empty (name : String) : ProtocolFactory σ := ⟨name, []⟩

def lookup (f : ProtocolFactory σ) : ProtocolSource σ := fun key => f.entries.lookup key

def contains (f : ProtocolFactory σ) (key : ProtocolKey) : Bool := (f.lookup key).isSome

def size (f : ProtocolFactory σ) : Nat := f.entries.length

def isEmpty (f : ProtocolFactory σ) : Bool := f.entries.isEmpty

/-- Adds a protocol, unless the key has one already. -/
def register (f : ProtocolFactory σ) (key : ProtocolKey) (protocol : Protocol σ) :
    ProtocolFactory σ :=
  if f.contains key then f else { f with entries := f.entries ++ [(key, protocol)] }

/-- Adds one protocol under several tags for one kind of result. -/
def registerTags (f : ProtocolFactory σ) (tags : List OperationTag) (result : Kind)
    (protocol : Protocol σ) : ProtocolFactory σ :=
  tags.foldl (fun f tag => f.register ⟨tag, result⟩ protocol) f

/-- The name and the keys in order of their text, as diagnostics show them. -/
def describe (f : ProtocolFactory σ) : String :=
  let keys := (f.entries.map (·.1.display)).mergeSort fun a b => a ≤ b
  "ProtocolFactory \x7b name: " ++ Text.quoted f.name ++ ", keys: [" ++
    ", ".intercalate (keys.map Text.quoted) ++ "] \x7d"

end ProtocolFactory

/-- Sources of protocols, in the order in which they are asked. -/
structure ProtocolChain (σ : Type) where
  sources : List (ProtocolSource σ)

namespace ProtocolChain

def size (c : ProtocolChain σ) : Nat := c.sources.length

def isEmpty (c : ProtocolChain σ) : Bool := c.sources.isEmpty

/-- The protocol of a key from the first source that knows it. -/
def lookup (c : ProtocolChain σ) : ProtocolSource σ := fun key => c.sources.findSome? (· key)

def knows (c : ProtocolChain σ) (key : ProtocolKey) : Bool := (c.lookup key).isSome

/-- The protocol of a key, which must be known. -/
def resolve (c : ProtocolChain σ) (key : ProtocolKey) : Except EvaluationError (Protocol σ) :=
  match c.lookup key with
  | some protocol => .ok protocol
  | none => .error (.protocolNotFound key.tag key.result)

/-- The number of sources, as diagnostics show it. -/
def describe (c : ProtocolChain σ) : String :=
  "ProtocolChain \x7b sources: " ++ countText c.size ++ " \x7d"

/-- Evaluates an operation with the protocol that the chain finds for it, and checks that the
result is of the declared kind. -/
def dispatch {m : Type → Type} [Interruptible m] (c : ProtocolChain σ) (op : Operation)
    (evaluate : Protocol σ → m Value) : m Value := do
  let protocol ← c.resolve (.of op)
  op.checked (evaluate protocol)

/-- The evaluations with the protocols of the chain. Operands are evaluated the same way with less
fuel. -/
def evaluator (c : ProtocolChain σ) : Nat → Evaluator σ
  | 0 => ⟨fun _ _ => Eval.outOfFuel, fun _ _ => Eval.outOfFuel⟩
  | fuel + 1 =>
    let ev := c.evaluator fuel
    ⟨fun cx op => c.dispatch op fun protocol => protocol.run ev cx op,
      fun cx op => c.dispatch op fun protocol => protocol.task ev cx op⟩

end ProtocolChain

end ReportCalc
