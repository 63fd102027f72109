import StepFlow.Number.Nearest
import StepFlow.Text.Blank
import StepFlow.Text.Quoted

/-!
Numerals in text. A floating numeral may be spelled with the digits of any script, with single
underscores between digits, and with white space around it; an integer numeral likewise. Integers
of more than 4300 digits are neither read nor written.
-/
namespace StepFlow.Number

open StepFlow.Text

/-- Most digits that an integer may have when it is read from text or written to it. -/
def digitLimit : Nat := 4300

/-- What reading an integer of too many digits is refused with. -/
def tooManyDigits (digits : Nat) : String :=
  "Exceeds the limit (" ++ toString digitLimit ++
    " digits) for integer string conversion: value has " ++ toString digits ++
    " digits; use sys.set_int_max_str_digits() to increase the limit"

/-- What reading anything else as an integer is refused with. A long text is cut. -/
def notAnInteger (base : Nat) (s : String) : String :=
  "invalid literal for int() with base " ++ toString base ++ ": " ++
    String.ofList ((quoted s).toList.take 200)

/-- A decimal numeral: its digits as one integer, how many there are from the first that is not
zero on, and the power of ten they are scaled by. -/
structure Numeral where
  negative : Bool
  digits : Nat
  count : Nat
  exponent : Int

/-- The nearest double. Exponents far outside the range need no arithmetic. -/
def Numeral.toFloat (n : Numeral) : Float :=
  let magnitude : Int := n.exponent + n.count
  if n.digits = 0 || decide (magnitude < -400) then nearest n.negative 0 1
  else if 400 < magnitude then nearest n.negative (tenTo 400) 1
  else if 0 ≤ n.exponent then nearest n.negative (n.digits * tenTo n.exponent.toNat) 1
  else nearest n.negative n.digits (tenTo (-n.exponent).toNat)

/-- Splits a sign off. -/
def splitSign : List Char → Bool × List Char
  | '-' :: cs => (true, cs)
  | '+' :: cs => (false, cs)
  | cs => (false, cs)

/-- Splits the digits in front off. -/
def splitDigits (cs : List Char) : List Char × List Char :=
  (cs.takeWhile isAsciiDigit, cs.dropWhile isAsciiDigit)

/-- The fraction digits after a point, if one comes next. -/
def splitFraction : List Char → List Char × List Char
  | '.' :: cs => splitDigits cs
  | cs => ([], cs)

/-- A whole number in the exponent place, after its mark. -/
def exponentValue? (cs : List Char) : Option Int :=
  let (negative, digits) := splitSign cs
  if digits.isEmpty || !digits.all isAsciiDigit then none
  else some (if negative then -(decimalValue digits : Int) else decimalValue digits)

/-- Whole digits, fraction digits and an exponent as one numeral. -/
def Numeral.ofParts (negative : Bool) (whole fraction : List Char) (exponent : Int) : Numeral :=
  let digits := (whole ++ fraction).dropWhile (· = '0')
  { negative
    digits := decimalValue digits
    count := digits.length
    exponent := exponent - fraction.length }

/-- Reads an unsigned numeral: digits with at most one point and an optional exponent. -/
def numeral? (negative : Bool) (cs : List Char) : Option Numeral :=
  let (whole, rest) := splitDigits cs
  let (fraction, rest) := splitFraction rest
  if whole.isEmpty && fraction.isEmpty then none
  else match rest with
    | [] => some (Numeral.ofParts negative whole fraction 0)
    | c :: rest =>
      if c = 'e' || c = 'E' then
        (exponentValue? rest).map (Numeral.ofParts negative whole fraction)
      else none

/-- Writes the digits of every script as ASCII digits. -/
def plainDigits (cs : List Char) : List Char :=
  cs.map fun c => match digit? c with
    | some d => Nat.digitChar d
    | none => c

/-- Drops underscores that stand between two digits and refuses any other. -/
def joinDigits? : Bool → List Char → Option (List Char)
  | _, [] => some []
  | afterDigit, '_' :: c :: cs =>
    if afterDigit && isAsciiDigit c then (joinDigits? true cs).map (c :: ·) else none
  | _, ['_'] => none
  | _, c :: cs => (joinDigits? (isAsciiDigit c) cs).map (c :: ·)

/-- The names of values without digits, in any letter case. -/
def namedFloat? (negative : Bool) (cs : List Char) : Option Float :=
  let name := String.ofList (cs.map Char.toLower)
  if name = "inf" || name = "infinity" then some (nearest negative (tenTo 400) 1)
  else if name = "nan" then some notANumber
  else none

/-- Reads the text of a double. -/
def float? (s : String) : Option Float :=
  match joinDigits? false (plainDigits (trimWhiteSpace s.toList)) with
  | none => none
  | some cs =>
    let (negative, cs) := splitSign cs
    match namedFloat? negative cs with
    | some x => some x
    | none => (numeral? negative cs).map Numeral.toFloat

/-- What reading an integer from text can come to. -/
inductive IntReading where
  | value (n : Int)
  | malformed
  | tooLong (digits : Nat)
  deriving DecidableEq, Repr

/-- Reads the text of an integer: an optional sign, and digits with single underscores between
them. Digits are counted before anything after them is looked at, so that too many are refused as
that whatever follows. -/
def readInt (s : String) : IntReading :=
  let (negative, body) := splitSign (plainDigits (trimWhiteSpace s.toList))
  let (grouped, rest) := body.span fun c => isAsciiDigit c || c = '_'
  match joinDigits? false grouped with
  | none => .malformed
  | some digits =>
    if digitLimit < digits.length then .tooLong digits.length
    else if digits.isEmpty || !rest.isEmpty then .malformed
    else .value (if negative then -(decimalValue digits : Int) else decimalValue digits)

/-- The text of an integer, unless it has too many digits. -/
def intText? (n : Int) : Option String :=
  let text := toString n
  if digitLimit < (toString n.natAbs).length then none else some text

end StepFlow.Number
