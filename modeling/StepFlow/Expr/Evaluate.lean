import StepFlow.Expr.Grammar

/-!
Evaluating expression text in a context. The text is scanned and its operands are read in order
before any operator applies. A failure is a value of its own, and callers that want null in its
place get it together with a diagnostic.
-/
namespace StepFlow.Expr

/-- Why an expression has no value. -/
structure Diagnostic where
  expression : String
  reason : Fault
  deriving DecidableEq, Repr

def Diagnostic.text (d : Diagnostic) : String :=
  "\"" ++ d.expression ++ "\": " ++ d.reason.description

/-- The value of a list of tokens. -/
def evaluateTokens (tokens : List Token) (context : Context) : Except Fault Value := do
  let items ← Item.resolve context (Item.ofTokens tokens)
  (ofItems .null items).eval

/-- The value of an expression, or the fault that prevented it. -/
def evaluate? (expression : String) (context : Context) : Except Fault Value :=
  evaluateTokens (Token.scan (Text.trim expression.toList)) context

/-- The value of an expression, null with a diagnostic when it has none. -/
def evaluate (expression : String) (context : Context) : Value × List Diagnostic :=
  match evaluate? expression context with
  | .ok v => (v, [])
  | .error reason => (.null, [⟨expression, reason⟩])

end StepFlow.Expr
