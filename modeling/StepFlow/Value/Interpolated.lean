import StepFlow.Json.Writer

/-!
Values inside template text. Null vanishes, truth values are lower-case words, a double that is an
integer loses its point, and lists and mappings are compact JSON. What JSON has no form for is as in
messages.
-/
namespace StepFlow.Value

/-- The text of an integer. -/
def integerText (n : Int) : Except Fault String :=
  match Number.intText? n with
  | some s => .ok s
  | none => .error .integerTooLong

/-- The text that a value contributes to a template. -/
def interpolated : Value → Except Fault String
  | .null => .ok ""
  | .bool b => .ok (if b then "true" else "false")
  | .int n => integerText n
  | .real x =>
    match Number.integral? x with
    | some n => integerText n
    | none => .ok (Number.documentLayout.text x)
  | .nan _ => .ok (Number.documentLayout.text Number.notANumber)
  | .text s => .ok s
  | .list items => Json.write Json.compact (.list items)
  | .map fields => Json.write Json.compact (.map fields)
  | .keyed entries => Json.write Json.compact (.keyed entries)
  | .bytes content => display (.bytes content)
  | .timestamp t => display (.timestamp t)
  | .set members => display (.set members)
  | .record _ shown _ _ => .ok shown

/-- The text of a value in a message to a model: texts as they are, all else as JSON. -/
def messageText : Value → Except Fault String
  | .text s => .ok s
  | v => Json.write Json.compact v

end StepFlow.Value
