import StepFlow.Expr.Token
import StepFlow.Value.Display

/-!
Tokens as diagnostics show them: the name of the kind and, where a token carries one, its value.
-/
namespace StepFlow

/-- How a relation is written. -/
def Relation.spelling : Relation → String
  | .eq => "=="
  | .ne => "!="
  | .lt => "<"
  | .le => "<="
  | .gt => ">"
  | .ge => ">="

namespace Expr.Token

def kindName : Token → String
  | .text _ => "string"
  | .int _ | .real _ => "number"
  | .bool _ => "boolean"
  | .null => "null"
  | .ident _ => "ident"
  | .relation _ | .and | .or => "op"
  | .not => "not"
  | .dot => "dot"
  | .opening => "lparen"
  | .closing => "rparen"

/-- The value that a token carries, null when its kind says it all. -/
def carried : Token → Value
  | .text s => .text s
  | .int n => .int n
  | .real x => .ofFloat x
  | .bool b => .bool b
  | .ident name => .text name
  | .relation r => .text r.spelling
  | .and => .text "&&"
  | .or => .text "||"
  | .null | .not | .dot | .opening | .closing => .null

def describe (t : Token) : String :=
  match t.carried with
  | .null => "Token(" ++ t.kindName ++ ")"
  | v => "Token(" ++ t.kindName ++ ", " ++ String.ofList v.inspected ++ ")"

end Expr.Token

end StepFlow
