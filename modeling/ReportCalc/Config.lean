import ReportCalc.Evaluation.Error
import ReportCalc.Json.Reader
import ReportCalc.Kind.Interchange

/-!
# Configuration

The settings of an agent: a bound on the passes of a recalculation and kinds that are supported
beyond the standard ones. They can be read from a JSON object, or from an array with the same
settings in order; unknown and repeated names are refused.
-/

namespace ReportCalc

/-- A bound on the number of passes, at least one. -/
structure PassLimit where
  passes : Nat
  pos : 0 < passes
  deriving DecidableEq

/-- The settings of an agent. Without a limit a recalculation goes on until no disabled input holds
a value. -/
structure Config where
  maxPasses : Option PassLimit
  extraKinds : List Kind
  deriving DecidableEq

namespace Config

/-- No limit and no further kinds. -/
def default : Config := ⟨none, []⟩

def withMaxPasses (c : Config) (limit : PassLimit) : Config := { c with maxPasses := some limit }

def withExtraKind (c : Config) (kind : Kind) : Config :=
  { c with extraKinds := c.extraKinds ++ [kind] }

/-- Reads a limit: `null`, or an integer from 1 that fits into 64 bits. -/
def limitOfJson? : Json → Option (Option PassLimit)
  | .null => some none
  | .integer n =>
    if h : 0 < n.toNat then if n < UInt64.size then some (some ⟨n.toNat, h⟩) else none else none
  | _ => none

def kindsOfJson? : Json → Option (List Kind)
  | .array items => items.mapM Kind.ofJson?
  | _ => none

/-- Reads the fields of an object; a setting that is not there keeps its default. -/
def ofFields? (fields : List (String × Json)) : Option Config := do
  if !(fields.map Prod.fst).Nodup then none
  if !fields.all (fun (name, _) => name == "max_passes" || name == "extra_kinds") then none
  let limit ← match fields.lookup "max_passes" with
    | some value => limitOfJson? value
    | none => some none
  let kinds ← match fields.lookup "extra_kinds" with
    | some value => kindsOfJson? value
    | none => some []
  return ⟨limit, kinds⟩

def ofTree? : Json → Option Config
  | .object fields => ofFields? fields
  | .array [] => some default
  | .array [limit] => do return ⟨← limitOfJson? limit, []⟩
  | .array [limit, kinds] => do return ⟨← limitOfJson? limit, ← kindsOfJson? kinds⟩
  | _ => none

def ofJson (text : String) : Except EvaluationError Config :=
  match Json.ofText? text with
  | none => .error (.config "the text is not JSON")
  | some tree =>
    match ofTree? tree with
    | some config => .ok config
    | none => .error (.config "the settings are not of the expected form")

end Config

end ReportCalc
