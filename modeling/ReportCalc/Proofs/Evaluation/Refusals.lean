import ReportCalc.Dispatch.Builtin

/-!
# Refusals

A built-in protocol that is asked for an operation which it does not know refuses it with an error
(`BuiltinRule.unexpected`). Other errors of computations have a text, too, some of which comes from
the host. That such a text is no refusal shows at its last word: it is not the name of a tag.
-/

namespace ReportCalc

/-- The error of a protocol that is asked for an operation which it does not know, although the
operation is not one of a host. -/
inductive EvaluationError.IsRefusal : EvaluationError → Prop
  | intro (protocol : String) (tag : OperationTag) (htag : tag ∈ OperationTag.builtin) :
    IsRefusal (.invalidOperation (protocol ++ " protocol cannot evaluate " ++ tag.display))

/-! ## Last words -/

/-- The characters after the last blank, from the last one on. -/
def lastWord (text : String) : List Char := text.toList.reverse.takeWhile (· != ' ')

/-- What stands before a blank does not matter. -/
theorem lastWord_append (before word : String) :
    lastWord (before ++ " " ++ word) = lastWord word := by
  have hchars : (before ++ " " ++ word).toList.reverse =
      word.toList.reverse ++ ' ' :: before.toList.reverse := by
    simp [String.toList_append]
  rw [lastWord, hchars, List.takeWhile_append]
  split
  · next hlength =>
    rw [lastWord, (List.takeWhile_prefix (· != ' ')).eq_of_length hlength]
    simp
  · rfl

/-- The last words of refusals. -/
def refusalWords : List (List Char) := OperationTag.builtin.map (lastWord ·.display)

/-- A text that ends in another word is no refusal. -/
theorem not_isRefusal {text : String} (h : lastWord text ∉ refusalWords) :
    ¬ EvaluationError.IsRefusal (.invalidOperation text) := by
  rintro ⟨protocol, tag, htag⟩
  have htext : protocol ++ " protocol cannot evaluate " ++ tag.display =
      protocol ++ " protocol cannot evaluate" ++ " " ++ tag.display := by
    simp only [String.append_assoc]
    rfl
  rw [htext, lastWord_append] at h
  exact h (List.mem_map_of_mem htag)

/-- None of them ends in a bracket or an equals sign. -/
theorem head?_of_mem_refusalWords {word : List Char} (h : word ∈ refusalWords) :
    word.head? ∉ [some '>', some ')', some '='] := by
  revert word
  decide

/-- None of them is the name of a type. -/
theorem lastWord_notMem_of_typeName {name : String}
    (h : name ∈ Scalar.all.map Scalar.display ++
      ["Null", "NamedList", "BoolWithMessage", "Validity", "Availability"]) :
    lastWord name ∉ refusalWords := by
  revert name
  decide

/-- A text that ends in the name of a value's type is no refusal. -/
theorem not_isRefusal_typeName (before : String) (v : Value) :
    ¬ EvaluationError.IsRefusal (.invalidOperation (before ++ " " ++ v.typeName)) := by
  refine not_isRefusal ?_
  rw [lastWord_append]
  cases v with
  | custom name payload =>
    have hlast : (lastWord (Value.custom name payload).typeName).head? = some '>' := by
      simp [lastWord, Value.typeName]
    exact fun h => head?_of_mem_refusalWords h (by simp [hlast])
  | _ => exact lastWord_notMem_of_typeName (by simp [Value.typeName, Scalar.all])

/-- The refusal of an operation of a host does not count. -/
theorem not_isRefusal_custom (before name : String) : ¬ EvaluationError.IsRefusal
    (.invalidOperation (before ++ (OperationTag.custom name).display)) := by
  refine not_isRefusal fun h => head?_of_mem_refusalWords h ?_
  simp [lastWord, OperationTag.display]

end ReportCalc
