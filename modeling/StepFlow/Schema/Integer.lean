import StepFlow.Number.Numeral
import StepFlow.Schema.Problem

/-!
Integers that fields are given as texts or doubles. A text may hold its integer in plain form, or
with a sign, zeros in front, single underscores between digits and a fraction of zeros; all that is
cleaned away first. A double has to be an integer of 64 bits.
-/
namespace StepFlow.Schema

open Number (IntReading digitLimit)
open Text (isAsciiDigit)

/-- Reads the plain form: a minus sign if need be, and then zero or digits that begin with another.
Digits are counted before anything after them is looked at. -/
def plainInteger (cs : List Char) : IntReading :=
  let (negative, body) := match cs with
    | '-' :: rest => (true, rest)
    | cs => (false, cs)
  let (digits, rest) := Number.splitDigits body
  if digits.isEmpty || (digits.head? = some '0' && 1 < digits.length) then .malformed
  else if digitLimit < digits.length then .tooLong digits.length
  else if !rest.isEmpty then .malformed
  else .value (if negative then -(Text.decimalValue digits : Int) else Text.decimalValue digits)

/-- Drops what begins with a zero up to the integer proper, which begins with another digit or a
minus sign. Underscores may stand among zeros. Before a point, or where zeros are all there is, the
last character stays. -/
def afterZero (last : Char) : List Char → Option (List Char)
  | [] => some [last]
  | c :: cs =>
    if c = '0' || c = '_' then afterZero c cs
    else if c = '.' then some (last :: c :: cs)
    else if c = '-' || isAsciiDigit c then some (c :: cs)
    else none

/-- Drops zeros in front of the integer proper. -/
def withoutZeros : List Char → Option (List Char)
  | '0' :: cs => afterZero '0' cs
  | c :: cs => if c = '-' || isAsciiDigit c then some (c :: cs) else none
  | [] => none

/-- Drops a sign and zeros in front; a minus sign is kept. Nothing is left of what cannot be an
integer. -/
def withoutSign : List Char → Option (List Char)
  | '+' :: '-' :: _ => none
  | '+' :: cs => withoutZeros cs
  | '-' :: cs => (withoutZeros cs).map ('-' :: ·)
  | cs => withoutZeros cs

/-- Drops a fraction of zeros, of which there has to be one. -/
def withoutFraction (cs : List Char) : List Char :=
  match cs.span (· ≠ '.') with
  | (whole, '.' :: zeros) => if !zeros.isEmpty && zeros.all (· = '0') then whole else cs
  | _ => cs

/-- Drops underscores, if each stands alone and inside. -/
def withoutUnderscores (cs : List Char) : List Char :=
  if cs.head? = some '_' || cs.getLast? = some '_' || (Text.cutAt ['_', '_'] cs).2.isSome then cs
  else cs.filter (· ≠ '_')

/-- Reads an integer that need not be in plain form. -/
def looseInteger (cs : List Char) : IntReading :=
  match plainInteger cs with
  | .malformed =>
    match withoutSign cs with
    | some rest => plainInteger (withoutUnderscores (withoutFraction rest))
    | none => .malformed
  | r => r

/-- The integer that a text of characters alone stands for, white space around it aside. -/
def integerText (s : String) : Checked Int :=
  match looseInteger (Text.trimWhiteSpace s.toList) with
  | .value n => .ok n
  | .malformed => .fail .integerText
  | .tooLong _ => .fail .integerSize

/-- The integer that a double is. Those beyond 64 bits are refused. -/
def integerDouble (x : Float) : Checked Int :=
  match Number.Binary.ofFloat? x, Number.integral? x with
  | none, _ => .fail .finiteExpected
  | some _, none => .fail .integerFraction
  | some _, some n => if n.natAbs < Number.twoTo 63 then .ok n else .fail .integerSize

/-- Whether an integer has a place in 64 bits. -/
def fitsWord (n : Int) : Bool :=
  decide (-(Number.twoTo 63 : Int) ≤ n) && decide (n < (Number.twoTo 63 : Int))

end StepFlow.Schema
