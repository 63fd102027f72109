import StepFlow.Number.Nearest

/-!
Shortest decimal text of a double: the fewest digits that read back as the same double, and of
those the digits nearest to it. The search compares exact integers only. A `Layout` then decides
how the digits are written.
-/
namespace StepFlow.Number

/-- Digits and the power of ten that the last one counts. -/
structure Decimal where
  digits : Nat
  exponent : Int
  deriving DecidableEq, Repr

/-- The reals that round to a double, as bounds over one common scale. The bounds themselves
belong to it exactly when the mantissa is even. -/
structure Interval where
  low : Nat
  value : Nat
  high : Nat
  scale : Nat
  closed : Bool

/-- Below a power of two the neighbour is half as far away, unless the exponent is the least. -/
def Interval.ofBinary (b : Binary) : Interval :=
  let lowered := if b.mantissa = twoTo 52 && decide (-1074 < b.exponent) then 1 else 2
  let up := if 0 ≤ b.exponent then twoTo b.exponent.toNat else 1
  let scale := if 0 ≤ b.exponent then 4 else 4 * twoTo (-b.exponent).toNat
  { low := (4 * b.mantissa - lowered) * up
    value := 4 * b.mantissa * up
    high := (4 * b.mantissa + 2) * up
    scale := scale
    closed := b.mantissa % 2 == 0 }

/-- Whether a decimal number lies among the reals that round to the double. -/
def Interval.contains (i : Interval) (d : Decimal) : Bool :=
  let point := if 0 ≤ d.exponent then d.digits * tenTo d.exponent.toNat * i.scale
    else d.digits * i.scale
  let factor := if 0 ≤ d.exponent then 1 else tenTo (-d.exponent).toNat
  if i.closed then i.low * factor ≤ point && point ≤ i.high * factor
  else i.low * factor < point && point < i.high * factor

/-- The exponent of the leading decimal digit of a positive ratio. -/
def floorLog10 (num den : Nat) : Int :=
  let reached (e : Int) : Bool :=
    if 0 ≤ e then den * tenTo e.toNat ≤ num else den ≤ num * tenTo (-e).toNat
  let guess := Int.fdiv (((num.log2 : Int) - den.log2) * 30103) 100000
  if reached (guess + 1) then guess + 1 else if reached guess then guess else guess - 1

/-- The nearer of the double's two neighbours on the grid of one power of ten, among those that
round to it. A tie goes to the even digits. -/
def Interval.onGrid? (i : Interval) (exponent : Int) : Option Decimal :=
  let num := if 0 ≤ exponent then i.value else i.value * tenTo (-exponent).toNat
  let den := if 0 ≤ exponent then i.scale * tenTo exponent.toNat else i.scale
  let below : Decimal := ⟨num / den, exponent⟩
  let above : Decimal := ⟨num / den + 1, exponent⟩
  let nearer : Decimal := ⟨roundDiv num den, exponent⟩
  if i.contains nearer then some nearer
  else if i.contains below then some below
  else if i.contains above then some above
  else none

/-- The first grid, from one digit on, that holds a number rounding to the double. Seventeen
digits always do. -/
def Interval.shortest (i : Interval) : Decimal :=
  let leading := floorLog10 i.value i.scale
  let grids := (List.range 17).map fun extra : Nat => leading - (extra : Int)
  (grids.findSome? i.onGrid?).getD ⟨0, 0⟩

/-- Drops the zeros at the end of the digits, within `fuel` places. -/
def Decimal.stripZeros : Nat → Decimal → Decimal
  | 0, d => d
  | fuel + 1, d =>
    if d.digits ≠ 0 && d.digits % 10 = 0 then stripZeros fuel ⟨d.digits / 10, d.exponent + 1⟩ else d

/-- How a double is written: positionally when the exponent of its leading digit is in range,
and otherwise with a mark and an exponent of two digits or more. -/
structure Layout where
  firstPositional : Int
  firstScaled : Int
  notANumber : String
  infinity : String

/-- The layout of numbers in logs and answers. -/
def plainLayout : Layout := ⟨-4, 16, "nan", "inf"⟩

/-- The layout of numbers inside documents. -/
def documentLayout : Layout := ⟨-4, 16, "NaN", "Infinity"⟩

/-- Writes digits by a layout, always with a point or an exponent. -/
def Layout.write (layout : Layout) (d : Decimal) : String :=
  let digits := toString d.digits
  let count : Int := digits.length
  let leading := d.exponent + count - 1
  if layout.firstPositional ≤ leading && decide (leading < layout.firstScaled) then
    if leading < 0 then "0." ++ "".pushn '0' (-leading - 1).toNat ++ digits
    else if 0 ≤ d.exponent then digits ++ "".pushn '0' d.exponent.toNat ++ ".0"
    else
      let whole := (leading + 1).toNat
      String.ofList (digits.toList.take whole) ++ "." ++ String.ofList (digits.toList.drop whole)
  else
    let fraction := digits.toList.drop 1
    let mantissa := String.ofList (digits.toList.take 1 ++ if fraction.isEmpty then [] else '.' :: fraction)
    let size := toString leading.natAbs
    let padded := if size.length < 2 then "0" ++ size else size
    mantissa ++ (if leading < 0 then "e-" else "e+") ++ padded

/-- The text of a double in a layout. -/
def Layout.text (layout : Layout) (x : Float) : String :=
  match Binary.ofFloat? x with
  | none =>
    if x.isNaN then layout.notANumber
    else if x < 0 then "-" ++ layout.infinity else layout.infinity
  | some b =>
    let magnitude :=
      if b.mantissa = 0 then "0.0"
      else layout.write ((Interval.ofBinary b).shortest.stripZeros 20)
    if b.negative then "-" ++ magnitude else magnitude

end StepFlow.Number
