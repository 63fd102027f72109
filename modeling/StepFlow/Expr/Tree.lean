import StepFlow.Value.Path
import StepFlow.Value.Ordering

/-!
Expressions as trees, over leaves of any type. The meaning of a tree over values evaluates every
operand, whatever the others come to; a conjunction or disjunction is one of its operands. Leaves
that are paths or literals get their values from a context first.
-/
namespace StepFlow

inductive Expr (α : Type) where
  | leaf (a : α)
  | not (e : Expr α)
  | relate (r : Relation) (left right : Expr α)
  | and (left right : Expr α)
  | or (left right : Expr α)
  deriving Repr

namespace Expr

/-- The value of a tree over values. -/
def eval : Expr Value → Except Fault Value
  | .leaf v => .ok v
  | .not e => do
    let v ← e.eval
    let b ← v.truth
    return .bool (!b)
  | .relate r left right => do
    let v ← left.eval
    let w ← right.eval
    return .bool (← v.relate r w)
  | .and left right => do
    let v ← left.eval
    let w ← right.eval
    return if ← v.truth then w else v
  | .or left right => do
    let v ← left.eval
    let w ← right.eval
    return if ← v.truth then v else w

/-- An operand as it is written: a literal value, or names to read out of the context. -/
inductive Operand where
  | literal (v : Value)
  | path (head : String) (rest : List String)

/-- What a name stands for: the entries that expressions can see, in order. -/
abbrev Context := Table Value

/-- The value of an operand in a context. -/
def Operand.value (context : Context) : Operand → Except Fault Value
  | .literal v => .ok v
  | .path head rest => (Value.map context).path (head :: rest)

/-- All leaves replaced by what a function makes of them, from left to right. -/
def traverse {α β : Type} (f : α → Except Fault β) : Expr α → Except Fault (Expr β)
  | .leaf a => (f a).map .leaf
  | .not e => (traverse f e).map .not
  | .relate r left right => do
    let left ← traverse f left
    let right ← traverse f right
    return .relate r left right
  | .and left right => do
    let left ← traverse f left
    let right ← traverse f right
    return .and left right
  | .or left right => do
    let left ← traverse f left
    let right ← traverse f right
    return .or left right

/-- The meaning of a tree over operands: every path is read before any operator applies. -/
def meaning (context : Context) (e : Expr Operand) : Except Fault Value := do
  (← e.traverse (Operand.value context)).eval

end Expr

end StepFlow
