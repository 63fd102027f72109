import StepFlow.Value.Display

/-!
What is read by name out of timestamps, bytes and sets: numbers, the bounds of their kind, a zone,
and methods. All of these but the numbers and the timestamps among them are records that are told
apart by what they show. A method shows its owner where the host shows a place in memory.
-/
namespace StepFlow

namespace Value

/-- A thing of the host that is made when it is read. -/
def made (shown : String) (attributes : Table Value) : Value := .record .engine shown attributes []

/-- The methods of some names. -/
def methods (owner : String) (names : List String) : Table Value :=
  names.map fun name => (name, made ("<built-in method " ++ name ++ " of " ++ owner ++ ">") [])

end Value

/-- A span of time of a number of days, seconds of a day and microseconds of a second. -/
structure TimeSpan where
  days : Int
  seconds : Nat
  microseconds : Nat

namespace TimeSpan

def text (s : TimeSpan) : String :=
  (if s.days = 0 then ""
    else toString s.days ++ (if s.days.natAbs = 1 then " day, " else " days, ")) ++
  toString (s.seconds / 3600) ++ ":" ++ padded 2 (s.seconds / 60 % 60) ++ ":" ++
    padded 2 (s.seconds % 60) ++
  (if s.microseconds = 0 then "" else "." ++ padded 6 s.microseconds)

def parts (s : TimeSpan) : Table Value :=
  [("days", .int s.days), ("seconds", .int s.seconds), ("microseconds", .int s.microseconds)] ++
    Value.methods s.text ["total_seconds"]

/-- The bounds of all spans. Of these only the parts are read. -/
def bounds : Table Value :=
  [("max", ⟨999999999, 86399, 999999⟩), ("min", ⟨-999999999, 0, 0⟩), ("resolution", ⟨0, 0, 1⟩)].map
    fun (name, (s : TimeSpan)) => (name, Value.made s.text s.parts)

def value (s : TimeSpan) : Value := .made s.text (s.parts ++ bounds)

end TimeSpan

/-- Zones of time by their distance from universal time in minutes. -/
abbrev Zone := Int

namespace Zone

def text (z : Zone) : String := "UTC" ++ if z = 0 then "" else TimeOfDay.offsetText z

def methods (z : Zone) : Table Value := Value.methods z.text ["dst", "fromutc", "tzname", "utcoffset"]

/-- The bounds of all zones, and universal time. Of these only the methods are read. -/
def bounds : Table Value :=
  [("max", 1439), ("min", -1439), ("utc", 0)].map
    fun (name, (z : Zone)) => (name, Value.made (text z) (methods z))

def value (z : Zone) : Value := .made (text z) (methods z ++ bounds)

end Zone

namespace Timestamp

def dateMethods : List String :=
  ["ctime", "isocalendar", "isoformat", "isoweekday", "replace", "strftime", "timetuple", "toordinal",
    "weekday"]

/-- The methods that make a date of something else. -/
def dateMakers : List String :=
  ["fromisocalendar", "fromisoformat", "fromordinal", "fromtimestamp", "today"]

def instantMethods : List String :=
  ["astimezone", "date", "dst", "time", "timestamp", "timetz", "tzname", "utcoffset", "utctimetuple"]

def instantMakers : List String := ["combine", "now", "strptime", "utcfromtimestamp", "utcnow"]

/-- What is read out of a date alone. -/
def dateAttributes (t : Timestamp) : Table Value :=
  [("max", .timestamp ⟨9999, 12, 31, none⟩), ("min", .timestamp ⟨1, 1, 1, none⟩),
    ("resolution", TimeSpan.value ⟨1, 0, 0⟩)] ++
  Value.methods t.spelled dateMethods ++ Value.methods "datetime.date" dateMakers

/-- What is read out of a date with a time of day. -/
def instantAttributes (t : Timestamp) (time : TimeOfDay) : Table Value :=
  [("hour", .int time.hour), ("minute", .int time.minute), ("second", .int time.second),
    ("microsecond", .int time.microsecond), ("fold", .int 0),
    ("tzinfo", Value.ofOption Zone.value time.offset),
    ("max", .timestamp ⟨9999, 12, 31, some ⟨23, 59, 59, 999999, none⟩⟩),
    ("min", .timestamp ⟨1, 1, 1, some ⟨0, 0, 0, 0, none⟩⟩),
    ("resolution", TimeSpan.value ⟨0, 0, 1⟩)] ++
  Value.methods t.spelled (dateMethods ++ instantMethods) ++
    Value.methods "datetime.datetime" (dateMakers ++ instantMakers)

def attributes (t : Timestamp) : Table Value :=
  [("year", .int t.year), ("month", .int t.month), ("day", .int t.day)] ++
    match t.time with
    | none => t.dateAttributes
    | some time => t.instantAttributes time

end Timestamp

namespace Value

def bytesMethods : List String :=
  ["capitalize", "center", "count", "decode", "endswith", "expandtabs", "find", "hex", "index",
    "isalnum", "isalpha", "isascii", "isdigit", "islower", "isspace", "istitle", "isupper", "join",
    "ljust", "lower", "lstrip", "partition", "removeprefix", "removesuffix", "replace", "rfind",
    "rindex", "rjust", "rpartition", "rsplit", "rstrip", "split", "splitlines", "startswith", "strip",
    "swapcase", "title", "translate", "upper", "zfill"]

def bytesMakers : List String := ["fromhex", "maketrans"]

def setMethods : List String :=
  ["add", "clear", "copy", "difference", "difference_update", "discard", "intersection",
    "intersection_update", "isdisjoint", "issubset", "issuperset", "pop", "remove",
    "symmetric_difference", "symmetric_difference_update", "union", "update"]

/-- What is read by name out of bytes. -/
def bytesAttributes (content : Text.Bytes) : Table Value :=
  methods (shown (.bytes content)) bytesMethods ++ methods "bytes" bytesMakers

/-- What is read by name out of a set. -/
def setAttributes (members : List Value) : Table Value := methods (shown (.set members)) setMethods

end Value

end StepFlow
