import StepFlow.Number.Quantity

/-!
Ranking: quantities from the least to the greatest, equal ones in the order they came. A double
that is not a number is below nothing and above nothing, so where a list holds one, its ranking
depends on which quantities are compared. Short lists are ranked by insertion behind their first
run, each place being looked for by halving.
-/
namespace StepFlow

namespace Ranking

variable {α : Type} (less : α → α → Bool)

/-- The items that go on falling, or go on without falling, from one item, and the others. -/
def runFrom (falling : Bool) : α → List α → List α × List α
  | _, [] => ([], [])
  | last, a :: rest =>
    if less a last = falling then
      let (run, others) := runFrom falling a rest
      (a :: run, others)
    else ([], a :: rest)

/-- The first run of a list, turned round if it falls, and the others. -/
def firstRun : List α → List α × List α
  | a :: b :: rest =>
    let falling := less b a
    let (run, others) := runFrom less falling a (b :: rest)
    (if falling then (a :: run).reverse else a :: run, others)
  | xs => (xs, [])

/-- A ranked list with an item put behind all that are not above it. -/
def insert (a : α) (xs : List α) : List α :=
  match _h : xs.drop (xs.length / 2) with
  | [] => [a]
  | m :: right =>
    let left := xs.take (xs.length / 2)
    if less a m then insert a left ++ m :: right else left ++ m :: insert a right
termination_by xs.length
decreasing_by
  all_goals
    have := congrArg List.length _h
    simp only [List.length_drop, List.length_cons, List.length_take] at *
    omega

/-- A list ranked by insertion. -/
def byInsertion (xs : List α) : List α :=
  (firstRun less xs).2.foldl (fun ranked a => insert less a ranked) (firstRun less xs).1

end Ranking

namespace Quantity

/-- Lists with fewer quantities are ranked by insertion. -/
def mergeSize : Nat := 64

/-- Quantities from the least to the greatest. -/
def ranked (qs : List Quantity) : List Quantity :=
  if qs.length < mergeSize then Ranking.byInsertion less qs
  else qs.mergeSort fun p q => !q.less p

end Quantity

end StepFlow
