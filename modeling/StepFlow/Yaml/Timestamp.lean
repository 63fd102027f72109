import StepFlow.Text.Digit
import StepFlow.Yaml.Failure

/-!
Reading timestamps out of the texts of scalars. What looks like a timestamp may still have a part
that is out of range.
-/
namespace StepFlow

open Yaml (DatePart)

/-- What is out of range in a time of day. -/
def TimeOfDay.problem? (t : TimeOfDay) : Option DatePart :=
  if 23 < t.hour then some .hour
  else if 59 < t.minute then some .minute
  else if 59 < t.second then some .second
  else none

namespace Timestamp

/-- A number of at least and at most so many digits, and what follows it. -/
def number (least most : Nat) (cs : List Char) : Option (Nat × List Char) :=
  let digits := (cs.take most).takeWhile Text.isAsciiDigit
  if digits.length < least then none else some (Text.decimalValue digits, cs.drop digits.length)

def expect (mark : Char) : List Char → Option (List Char)
  | c :: cs => if c = mark then some cs else none
  | [] => none

def isGap (c : Char) : Bool := c == ' ' || c == '\t'

/-- The separator between a date and a time. -/
def gap : List Char → Option (List Char)
  | 'T' :: cs => some cs
  | 't' :: cs => some cs
  | c :: cs => if isGap c then some (cs.dropWhile isGap) else none
  | [] => none

/-- The microseconds of a fraction of a second; further digits are dropped. -/
def fraction : List Char → Nat × List Char
  | '.' :: cs =>
    let digits := cs.takeWhile Text.isAsciiDigit
    (Text.decimalValue ((digits ++ List.replicate 6 '0').take 6), cs.drop digits.length)
  | cs => (0, cs)

/-- The minutes after a sign. -/
def distance (cs : List Char) : Option Int := do
  let (hours, rest) ← number 1 2 cs
  match rest with
  | [] => return 60 * hours
  | ':' :: rest => do
    let (minutes, rest) ← number 2 2 rest
    if rest.isEmpty then return 60 * hours + minutes else none
  | _ => none

/-- The distance from universal time at the end of a timestamp, which may be left out. -/
def offset (cs : List Char) : Option (Option Int) :=
  match cs, cs.dropWhile isGap with
  | [], _ => some none
  | _, ['Z'] => some (some 0)
  | _, '+' :: rest => (distance rest).map some
  | _, '-' :: rest => (distance rest).map fun m => some (-m)
  | _, _ => none

def timeOfDay (cs : List Char) : Option TimeOfDay := do
  let (hour, cs) ← number 1 2 cs
  let (minute, cs) ← number 2 2 (← expect ':' cs)
  let (second, cs) ← number 2 2 (← expect ':' cs)
  let (microsecond, cs) := fraction cs
  return ⟨hour, minute, second, microsecond, ← offset cs⟩

/-- Reads a timestamp whose month and day have at least so many digits when it has no time. -/
def ofText? (least : Nat) (cs : List Char) : Option Timestamp := do
  let (year, cs) ← number 4 4 cs
  let begun ← expect '-' cs
  let (month, cs) ← number 1 2 begun
  let (day, rest) ← number 1 2 (← expect '-' cs)
  match rest with
  | [] =>
    if begun.length - cs.length < least || cs.length - 1 < least then none
    else return ⟨year, month, day, none⟩
  | rest => return ⟨year, month, day, some (← timeOfDay (← gap rest))⟩

/-- What is out of range in a date. -/
def dateProblem? (t : Timestamp) : Option DatePart :=
  if t.year = 0 then some (.year t.year)
  else if t.month = 0 || 12 < t.month then some .month
  else if t.day = 0 || daysIn t.year t.month < t.day then some .day
  else none

/-- What is out of range: the distance from universal time, then the date, then the time. -/
def problem? (t : Timestamp) : Option DatePart :=
  match t.time with
  | none => t.dateProblem?
  | some time =>
    match time.offset with
    | some m =>
      if 1440 ≤ m.natAbs then some (.offset m) else t.dateProblem? <|> time.problem?
    | none => t.dateProblem? <|> time.problem?

end Timestamp

/-- A text without a line feed at its end, which does not count where a type is looked for. -/
def Yaml.dropFinalBreak (cs : List Char) : List Char :=
  if cs.getLast? = some '\n' then cs.dropLast else cs

/-- A date alone has two digits for the month and for the day. -/
def Yaml.looksLikeTimestamp (cs : List Char) : Bool := (Timestamp.ofText? 2 cs).isSome

end StepFlow
