import ReportCalc.Operation.Basic

/-!
# Equality of operations

Two operations are equal when their parts are, down to the equality of the values in them.
-/

namespace ReportCalc.Operation

mutual

def beq : Operation → Operation → Bool
  | .const v k, .const w l => v == w && k == l
  | .cellValue p k, .cellValue q l => p == q && k == l
  | .hasValue p, .hasValue q => p == q
  | .ifThenElse c t e k, .ifThenElse c' t' e' k' => beq c c' && beq t t' && beq e e' && k == k'
  | .andAlso xs, .andAlso ys => beqList xs ys
  | .orElse xs, .orElse ys => beqList xs ys
  | .not a, .not b => beq a b
  | .compare a o b, .compare a' o' b' => beq a a' && o == o' && beq b b'
  | .sum xs k, .sum ys l => beqList xs ys && k == l
  | .subtract a b k, .subtract a' b' k' => beq a a' && beq b b' && k == k'
  | .multiply xs k, .multiply ys l => beqList xs ys && k == l
  | .divide a b k, .divide a' b' k' => beq a a' && beq b b' && k == k'
  | .withMessage c m, .withMessage c' m' => beq c c' && beqOption m m'
  | .validate c, .validate d => beqValidation c d
  | .checkAvailability c, .checkAvailability d => beqAvailability c d
  | .validity p, .validity q => p == q
  | .availability p, .availability q => p == q
  | .abort m k, .abort n l => m == n && k == l
  | .notApplicable m k, .notApplicable n l => m == n && k == l
  | .custom n r xs p, .custom n' r' ys p' => n == n' && r == r' && beqList xs ys && p == p'
  | _, _ => false

def beqList : List Operation → List Operation → Bool
  | [], [] => true
  | a :: as, b :: bs => beq a b && beqList as bs
  | _, _ => false

def beqOption : Option Operation → Option Operation → Bool
  | none, none => true
  | some a, some b => beq a b
  | _, _ => false

def beqAction : ValidationAction Operation → ValidationAction Operation → Bool
  | .next, .next => true
  | .stop v m, .stop w n => v == w && beqOption m n
  | _, _ => false

def beqStep : ValidationStep Operation → ValidationStep Operation → Bool
  | .check c t e, .check c' t' e' => beq c c' && beqAction t t' && beqAction e e'
  | .checkWithMessage c t e, .checkWithMessage c' t' e' =>
    beq c c' && beqAction t t' && beqAction e e'
  | _, _ => false

def beqSteps : List (ValidationStep Operation) → List (ValidationStep Operation) → Bool
  | [], [] => true
  | a :: as, b :: bs => beqStep a b && beqSteps as bs
  | _, _ => false

def beqValidation : ValidationChain Operation → ValidationChain Operation → Bool
  | ⟨a, as, v, m⟩, ⟨b, bs, w, n⟩ => beqStep a b && beqSteps as bs && v == w && beqOption m n

def beqCheck : AvailabilityStep Operation → AvailabilityStep Operation → Bool
  | ⟨c, t, e⟩, ⟨c', t', e'⟩ => beq c c' && t == t' && e == e'

def beqChecks : List (AvailabilityStep Operation) → List (AvailabilityStep Operation) → Bool
  | [], [] => true
  | a :: as, b :: bs => beqCheck a b && beqChecks as bs
  | _, _ => false

def beqAvailability : AvailabilityChain Operation → AvailabilityChain Operation → Bool
  | ⟨a, as, v⟩, ⟨b, bs, w⟩ => beqCheck a b && beqChecks as bs && v == w

end

instance : BEq Operation := ⟨beq⟩

instance : BEq (ValidationChain Operation) := ⟨beqValidation⟩

instance : BEq (AvailabilityChain Operation) := ⟨beqAvailability⟩

end ReportCalc.Operation
