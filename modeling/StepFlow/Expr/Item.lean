import StepFlow.Expr.Token
import StepFlow.Expr.Tree

/-!
Items: what the grammar reads. A chain of identifiers with single dots between them is one
operand, and dots anywhere else are dropped. Items carry their operands unread, so that reading
a context is one pass over the list.
-/
namespace StepFlow.Expr

inductive Item (α : Type) where
  | operand (a : α)
  | relation (r : Relation)
  | and
  | or
  | not
  | opening
  | closing

namespace Item

/-- The names that continue a chain, and what follows it. -/
def chain : List Token → List String × List Token
  | .dot :: .ident name :: rest =>
    let (names, rest) := chain rest
    (name :: names, rest)
  | tokens => ([], tokens)

theorem chain_length (tokens : List Token) : (chain tokens).2.length ≤ tokens.length := by
  fun_induction chain tokens with
  | case1 name rest names after h ih =>
    have hrest : after.length ≤ rest.length := by
      rw [h] at ih
      exact ih
    simp only [List.length_cons]
    omega
  | case2 => exact Nat.le_refl _

/-- The items of a token list. -/
def ofTokens : List Token → List (Item Operand)
  | [] => []
  | .ident name :: rest => .operand (.path name (chain rest).1) :: ofTokens (chain rest).2
  | .text s :: rest => .operand (.literal (.text s)) :: ofTokens rest
  | .int n :: rest => .operand (.literal (.int n)) :: ofTokens rest
  | .real x :: rest => .operand (.literal (.ofFloat x)) :: ofTokens rest
  | .bool b :: rest => .operand (.literal (.bool b)) :: ofTokens rest
  | .null :: rest => .operand (.literal .null) :: ofTokens rest
  | .relation r :: rest => .relation r :: ofTokens rest
  | .and :: rest => .and :: ofTokens rest
  | .or :: rest => .or :: ofTokens rest
  | .not :: rest => .not :: ofTokens rest
  | .dot :: rest => ofTokens rest
  | .opening :: rest => .opening :: ofTokens rest
  | .closing :: rest => .closing :: ofTokens rest
termination_by tokens => tokens.length
decreasing_by
  all_goals simp only [List.length_cons]
  all_goals try have := chain_length rest
  all_goals omega

/-- An item with its operand replaced. -/
def traverse {α β : Type} (f : α → Except Fault β) : Item α → Except Fault (Item β)
  | .operand a => (f a).map .operand
  | .relation r => .ok (.relation r)
  | .and => .ok .and
  | .or => .ok .or
  | .not => .ok .not
  | .opening => .ok .opening
  | .closing => .ok .closing

/-- The items with every operand read out of a context, from left to right. -/
def resolve (context : Context) (items : List (Item Operand)) : Except Fault (List (Item Value)) :=
  items.mapM (traverse (Operand.value context))

end Item

end StepFlow.Expr
