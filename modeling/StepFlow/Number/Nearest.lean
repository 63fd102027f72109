/-!
Doubles as exact numbers. A finite double is a mantissa times a power of two, and every positive
ratio of naturals has one nearest double, ties going to the even mantissa. Integers, decimal text
and rounded durations all become doubles through this one function.
-/
namespace StepFlow.Number

def twoTo (k : Nat) : Nat := Nat.pow 2 k

def tenTo (k : Nat) : Nat := Nat.pow 10 k

/-- The double that is not a number. -/
def notANumber : Float := 0.0 / 0.0

/-- A finite double taken apart: its value is the mantissa times two to the exponent. -/
structure Binary where
  negative : Bool
  mantissa : Nat
  exponent : Int
  deriving DecidableEq, Repr

/-- The parts of a double, unless it is infinite or not a number. -/
def Binary.ofFloat? (x : Float) : Option Binary :=
  let bits := x.toBits.toNat
  let negative := decide (twoTo 63 ≤ bits)
  let scale : Nat := bits / twoTo 52 % 2048
  let fraction := bits % twoTo 52
  if scale = 2047 then none
  else if scale = 0 then some ⟨negative, fraction, -1074⟩
  else some ⟨negative, fraction + twoTo 52, (scale : Int) - 1075⟩

/-- The magnitude as a ratio of naturals. -/
def Binary.ratio (b : Binary) : Nat × Nat :=
  if 0 ≤ b.exponent then (b.mantissa * twoTo b.exponent.toNat, 1)
  else (b.mantissa, twoTo (-b.exponent).toNat)

/-- A quotient rounded to the nearest integer, a half going to the even neighbour. -/
def roundDiv (num den : Nat) : Nat :=
  let quotient := num / den
  let rest := num % den
  if 2 * rest < den then quotient
  else if den < 2 * rest then quotient + 1
  else quotient + quotient % 2

/-- The greatest power of two that is at most the ratio, as an exponent. -/
def floorLog2 (num den : Nat) : Int :=
  let guess : Int := (num.log2 : Int) - den.log2
  let reached := if 0 ≤ guess then den * twoTo guess.toNat ≤ num else den ≤ num * twoTo (-guess).toNat
  if reached then guess else guess - 1

/-- The bits of the double nearest to a positive ratio. Beyond the range they are those of
infinity or more, below it they are zero. -/
def nearestBits (num den : Nat) : Nat :=
  let step : Int := max (floorLog2 num den - 52) (-1074)
  let mantissa :=
    if 0 ≤ step then roundDiv num (den * twoTo step.toNat)
    else roundDiv (num * twoTo (-step).toNat) den
  (step + 1074).toNat * twoTo 52 + mantissa

/-- The bits of positive infinity, the first that no finite double has. -/
def infinityBits : Nat := 2047 * twoTo 52

/-- The nearest double to a signed ratio, infinite beyond the range. -/
def nearest (negative : Bool) (num den : Nat) : Float :=
  let bits := if num = 0 then 0 else min (nearestBits num den) infinityBits
  Float.ofBits (UInt64.ofNat (if negative then bits + twoTo 63 else bits))

/-- The nearest double to an integer, if one is finite. -/
def ofInt? (n : Int) : Option Float :=
  if n = 0 then some 0.0
  else if nearestBits n.natAbs 1 < infinityBits then some (nearest (n < 0) n.natAbs 1)
  else none

/-- The integer part of a double, toward zero. -/
def truncate? (x : Float) : Option Int :=
  (Binary.ofFloat? x).map fun b =>
    let (num, den) := b.ratio
    if b.negative then -((num / den : Nat) : Int) else ((num / den : Nat) : Int)

/-- The integer that a double equals, if it equals one. -/
def integral? (x : Float) : Option Int :=
  match Binary.ofFloat? x with
  | none => none
  | some b =>
    let (num, den) := b.ratio
    if num % den = 0 then
      some (if b.negative then -((num / den : Nat) : Int) else ((num / den : Nat) : Int))
    else none

/-- A double rounded to hundredths by its exact value, a half going to the even neighbour. The
sign of zero stays, and so do infinities and values that are not numbers. -/
def roundToHundredths (x : Float) : Float :=
  match Binary.ofFloat? x with
  | none => x
  | some b =>
    let (num, den) := b.ratio
    nearest b.negative (roundDiv (num * 100) den) 100

end StepFlow.Number
