/-!
Timestamps: a date, or a date with a time of day and maybe a distance from universal time. Where
both of two timestamps have such a distance, they are one if they mean the same instant.
-/
namespace StepFlow

structure TimeOfDay where
  hour : Nat
  minute : Nat
  second : Nat
  microsecond : Nat
  /-- The distance from universal time in minutes. -/
  offset : Option Int
  deriving DecidableEq, Repr

structure Timestamp where
  year : Nat
  month : Nat
  day : Nat
  time : Option TimeOfDay
  deriving DecidableEq, Repr

/-- A number with at least so many digits. -/
def padded (width n : Nat) : String :=
  let digits := toString n
  "".pushn '0' (width - digits.length) ++ digits

/-- A span of whole minutes as days and seconds. Of these, what is zero is left out. -/
def spanText (minutes : Int) : String :=
  let days := Int.fdiv minutes 1440
  let seconds := Int.fmod minutes 1440 * 60
  let parts := (if days = 0 then [] else ["days=" ++ toString days]) ++
    (if seconds = 0 then [] else ["seconds=" ++ toString seconds])
  "datetime.timedelta(" ++ (if parts.isEmpty then "0" else String.intercalate ", " parts) ++ ")"

namespace TimeOfDay

/-- The microseconds since the beginning of the day. -/
def sinceMidnight (t : TimeOfDay) : Nat :=
  ((t.hour * 60 + t.minute) * 60 + t.second) * 1000000 + t.microsecond

def offsetText (m : Int) : String :=
  (if m < 0 then "-" else "+") ++ padded 2 (m.natAbs / 60) ++ ":" ++ padded 2 (m.natAbs % 60)

def text (t : TimeOfDay) : String :=
  padded 2 t.hour ++ ":" ++ padded 2 t.minute ++ ":" ++ padded 2 t.second ++
    (if t.microsecond = 0 then "" else "." ++ padded 6 t.microsecond) ++
    (match t.offset with
      | some m => offsetText m
      | none => "")

/-- The numbers of a time of day. Seconds and microseconds are left out if nothing but zero
follows from there on. -/
def numbers (t : TimeOfDay) : List Nat :=
  [t.hour, t.minute] ++
    (if t.microsecond = 0 then (if t.second = 0 then [] else [t.second])
      else [t.second, t.microsecond])

/-- The distance from universal time as a timestamp spelled out ends with it. -/
def zoneText (t : TimeOfDay) : String :=
  match t.offset with
  | none => ""
  | some m =>
    if m = 0 then ", tzinfo=datetime.timezone.utc"
    else ", tzinfo=datetime.timezone(" ++ spanText m ++ ")"

end TimeOfDay

namespace Timestamp

def isLeap (year : Nat) : Bool :=
  year % 4 == 0 && (year % 100 != 0 || year % 400 == 0)

def daysIn (year month : Nat) : Nat :=
  if month = 2 then (if isLeap year then 29 else 28)
  else if month = 4 || month = 6 || month = 9 || month = 11 then 30
  else 31

/-- The days from the beginning of the first year to the end of a date. -/
def dayNumber (t : Timestamp) : Nat :=
  let before := t.year - 1
  365 * before + before / 4 - before / 100 + before / 400 +
    (List.range (t.month - 1)).foldl (fun days m => days + daysIn t.year (m + 1)) t.day

/-- The microseconds of universal time from a fixed day on, if the distance from it is known. -/
def instant? (t : Timestamp) : Option Int := do
  let time ← t.time
  let offset ← time.offset
  return (t.dayNumber * 1440 - offset) * 60000000 + time.sinceMidnight

/-- Whether two timestamps are one. -/
def same (s t : Timestamp) : Bool :=
  match s.instant?, t.instant? with
  | some p, some q => p == q
  | _, _ => decide (s = t)

def text (t : Timestamp) : String :=
  padded 4 t.year ++ "-" ++ padded 2 t.month ++ "-" ++ padded 2 t.day ++
    (match t.time with
      | some time => " " ++ time.text
      | none => "")

/-- A timestamp spelled out by its numbers, as it is shown inside other values. -/
def spelled (t : Timestamp) : String :=
  let listed (numbers : List Nat) := String.intercalate ", " (numbers.map toString)
  match t.time with
  | none => "datetime.date(" ++ listed [t.year, t.month, t.day] ++ ")"
  | some time =>
    "datetime.datetime(" ++ listed ([t.year, t.month, t.day] ++ time.numbers) ++ time.zoneText ++ ")"

end Timestamp

end StepFlow
