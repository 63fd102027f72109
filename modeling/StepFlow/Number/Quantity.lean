import StepFlow.Number.Nearest

/-!
Quantities: numbers that are exact integers as long as nothing makes them doubles. Arithmetic of
two integers is exact, and beside a double an integer counts as its nearest double, so it has no
result when the integer is beyond the range of doubles. Comparisons are always exact.
-/
namespace StepFlow

inductive Quantity where
  | int (n : Int)
  | real (x : Float)
  deriving Inhabited

namespace Quantity

def ofBool (b : Bool) : Quantity := .int (if b then 1 else 0)

/-- Exact equality, whatever the sizes. -/
def same : Quantity → Quantity → Bool
  | .int m, .int n => m == n
  | .real x, .real y => x == y
  | .int n, .real x => Number.integral? x == some n
  | .real x, .int n => Number.integral? x == some n

/-- The nearest double, none beyond the range. -/
def double? : Quantity → Option Float
  | .int n => Number.ofInt? n
  | .real x => some x

/-- Exact arithmetic on integers, and the arithmetic of doubles on all else. -/
def combine? (exact : Int → Int → Int) (rounding : Float → Float → Float) :
    Quantity → Quantity → Option Quantity
  | .int m, .int n => some (.int (exact m n))
  | p, q => do return .real (rounding (← p.double?) (← q.double?))

def add? : Quantity → Quantity → Option Quantity := combine? (· + ·) (· + ·)

def sub? : Quantity → Quantity → Option Quantity := combine? (· - ·) (· - ·)

def mul? : Quantity → Quantity → Option Quantity := combine? (· * ·) (· * ·)

/-- The exact value of a finite double as a ratio. -/
def ratio? (x : Float) : Option (Int × Nat) :=
  (Number.Binary.ofFloat? x).map fun b =>
    let (num, den) := b.ratio
    (if b.negative then -(num : Int) else num, den)

/-- Whether one quantity is less than another. -/
def less : Quantity → Quantity → Bool
  | .int m, .int n => m < n
  | .real x, .real y => x < y
  | .int m, .real y =>
    match ratio? y with
    | some (num, den) => m * den < num
    | none => 0.0 < y
  | .real x, .int n =>
    match ratio? x with
    | some (num, den) => num < n * den
    | none => x < 0.0

/-- The sum from the left, zero being an integer. -/
def sum? (qs : List Quantity) : Option Quantity := qs.foldlM add? (.int 0)

/-- A quantity to two places; integers are as they are. -/
def rounded : Quantity → Quantity
  | .int n => .int n
  | .real x => .real (Number.roundToHundredths x)

end Quantity

end StepFlow
