import StepFlow.Fault
import StepFlow.Number.Shortest
import StepFlow.Value.Writable

/-!
Values as messages and text logs show them. A text stands for itself at the top and is quoted
inside other values, and a timestamp is spelled out there; truth values and null are capitalised
names.
-/
namespace StepFlow.Value

mutual

/-- A value as it stands inside others, with texts quoted. -/
def inspected : Value → List Char
  | .null => "None".toList
  | .bool true => "True".toList
  | .bool false => "False".toList
  | .int n => (toString n).toList
  | .real x => (Number.plainLayout.text x).toList
  | .nan _ => (Number.plainLayout.text Number.notANumber).toList
  | .text s => (Text.quoted s).toList
  | .bytes content => Text.shownBytes content
  | .timestamp t => t.spelled.toList
  | .list items => '[' :: inspectedItems items ++ [']']
  | .set [] => "set()".toList
  | .set (v :: rest) => '{' :: inspectedItems (v :: rest) ++ ['}']
  | .map fields => '{' :: inspectedFields fields ++ ['}']
  | .keyed entries => '{' :: inspectedEntries entries ++ ['}']
  | .record _ shown _ _ => shown.toList

def inspectedItems : List Value → List Char
  | [] => []
  | [v] => inspected v
  | v :: rest => inspected v ++ ", ".toList ++ inspectedItems rest

def inspectedFields : List (String × Value) → List Char
  | [] => []
  | [(name, v)] => (Text.quoted name).toList ++ ": ".toList ++ inspected v
  | (name, v) :: rest =>
    (Text.quoted name).toList ++ ": ".toList ++ inspected v ++ ", ".toList ++ inspectedFields rest

def inspectedEntries : List (Value × Value) → List Char
  | [] => []
  | [(k, v)] => inspected k ++ ": ".toList ++ inspected v
  | (k, v) :: rest =>
    inspected k ++ ": ".toList ++ inspected v ++ ", ".toList ++ inspectedEntries rest

end

/-- A value as it stands by itself. -/
def shown : Value → String
  | .text s => s
  | .timestamp t => t.text
  | v => String.ofList v.inspected

/-- A value with texts quoted, a fault when an integer in it is too long. -/
def inspect (v : Value) : Except Fault String :=
  if v.isWritable then .ok (String.ofList v.inspected) else .error .integerTooLong

/-- A value as it stands in a message: a text is itself. -/
def display (v : Value) : Except Fault String :=
  if v.isWritable then .ok v.shown else .error .integerTooLong

/-- An integer that may be written is shown by its digits. -/
theorem display_int (n : Int) :
    display (.int n) = if (Value.int n).isWritable then .ok (toString n) else .error .integerTooLong := by
  have hShown : shown (.int n) = toString n := by simp [shown, inspected]
  rw [display, hShown]

theorem display_eq_error_iff {v : Value} {f : Fault} :
    v.display = .error f ↔ v.isWritable = false ∧ .integerTooLong = f := by
  unfold display
  cases v.isWritable <;> simp

/-- A list of texts with each quoted. -/
def inspectTexts (texts : List String) : String :=
  String.ofList ((Value.list (texts.map .text)).inspected)

end StepFlow.Value
