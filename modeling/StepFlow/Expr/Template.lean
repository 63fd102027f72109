import StepFlow.Expr.Evaluate
import StepFlow.Expr.Placeholder
import StepFlow.Value.Interpolated

/-!
Templates and conditions. A template that is one placeholder keeps the kind of its value, any
other becomes a text. The text that a value contributes is never scanned again. Conditions may
stand between braces or not.
-/
namespace StepFlow.Expr

/-- A stretch of a template: plain text, or the expression of a placeholder. -/
inductive Segment where
  | plain (c : Char)
  | placeholder (expression : List Char)
  deriving DecidableEq, Repr

namespace Template

/-- The segments of a text, from left to right. Braces that open no placeholder are plain. -/
def segments (cs : List Char) : List Segment :=
  match cs with
  | [] => []
  | '{' :: '{' :: rest =>
    match _h : Placeholder.next? rest with
    | some (expression, after) => .placeholder expression :: segments after
    | none => .plain '{' :: segments ('{' :: rest)
  | c :: rest => .plain c :: segments rest
termination_by cs.length
decreasing_by
  · have := Placeholder.next?_length _h
    simp only [List.length_cons]
    omega
  · simp
  · simp

/-- The text of a segment. -/
def segmentText (context : Context) : Segment → Except Fault (List Char × List Diagnostic)
  | .plain c => .ok ([c], [])
  | .placeholder expression => do
    let (v, diagnostics) := evaluate (String.ofList expression) context
    let text ← v.interpolated
    return (text.toList, diagnostics)

/-- The text of segments put together. -/
def fill (context : Context) : List Segment → Except Fault (List Char × List Diagnostic)
  | [] => .ok ([], [])
  | segment :: rest => do
    let (text, diagnostics) ← segmentText context segment
    let (texts, more) ← fill context rest
    return (text ++ texts, diagnostics ++ more)

/-- The value of a template. -/
def resolve (template : String) (context : Context) : Except Fault (Value × List Diagnostic) :=
  let cs := Text.trim template.toList
  match Placeholder.whole? cs with
  | some expression => .ok (evaluate (String.ofList expression) context)
  | none => do
    let (text, diagnostics) ← fill context (segments cs)
    return (.text (String.ofList text), diagnostics)

/-- The value of a template given as a value; only texts are templates. -/
def resolveValue (template : Value) (context : Context) :
    Except Fault (Value × List Diagnostic) :=
  match template with
  | .text s => resolve s context
  | v => .error (.missingAttribute v.kind "strip")

/-- A template without text is itself. -/
theorem resolveValue_empty (context : Context) :
    resolveValue (.text "") context = .ok (.text "", []) := by
  have hSegments : segments [] = [] := by
    rw [segments.eq_def]
  have hTrim : Text.trim "".toList = [] := rfl
  unfold resolveValue resolve
  simp only [hTrim, hSegments]
  rfl

end Template

/-- What a condition holds apart from the braces around it. -/
def conditionBody (condition : String) : String :=
  let cs := Text.trim condition.toList
  String.ofList ((Placeholder.whole? cs).getD cs)

/-- The truth of a condition and the diagnostics of its expression. -/
def condition (text : String) (context : Context) : Except Fault Bool × List Diagnostic :=
  let (v, diagnostics) := evaluate (conditionBody text) context
  (v.truth, diagnostics)

/-- The truth of a condition given as a value; only texts are conditions. -/
def conditionValue (text : Value) (context : Context) : Except Fault Bool :=
  match text with
  | .text s => (condition s context).1
  | v => .error (.missingAttribute v.kind "strip")

end StepFlow.Expr
