/-!
# Verdicts

What rule chains decide: the validity of a cell, with an optional explanation, and its
availability.
-/

namespace ReportCalc

/-- The verdict of a validation. -/
inductive Verdict where
  | valid | invalid | notApplicable | aborted
  deriving DecidableEq

def Verdict.display : Verdict → String
  | .valid => "valid"
  | .invalid => "invalid"
  | .notApplicable => "not applicable"
  | .aborted => "aborted"

/-- A verdict and the message that explains it, if there is one. -/
structure Validity where
  verdict : Verdict
  message : Option String
  deriving DecidableEq

/-- The wording in messages: the verdict, and after a colon the explanation. -/
def Validity.display (v : Validity) : String :=
  match v.message with
  | some m => v.verdict.display ++ ": " ++ m
  | none => v.verdict.display

/-- Whether a cell may be used. -/
inductive Availability where
  | enabled | disabled
  deriving DecidableEq

def Availability.display : Availability → String
  | .enabled => "enabled"
  | .disabled => "disabled"

end ReportCalc
