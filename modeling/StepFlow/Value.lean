import StepFlow.Number.Nearest
import StepFlow.Table
import StepFlow.Text.Bytes
import StepFlow.Timestamp

/-!
Values that flows pass around: what a document can hold, doubles and unbounded integers apart, and
records. Bytes, sets and timestamps come only from documents in which types are spelled out. A
record is a thing of the host with named attributes, some of which fail when read; of
its own it shows only a fixed text. Two records that show alike need not be one, and neither need
two doubles that are not numbers, so both carry a mark.
-/
namespace StepFlow

/-- What tells apart things that look alike. What comes from outside has a number of its own,
wherever it is passed on to; what expressions and clocks make is one, and so is what documents
spell out. -/
inductive Mark where
  | own (number : Nat)
  | engine
  | document
  deriving DecidableEq, Repr

inductive Value where
  | null
  | bool (b : Bool)
  | int (n : Int)
  | real (x : Float)
  /-- A double that is not a number. -/
  | nan (mark : Mark)
  | text (s : String)
  | bytes (content : Text.Bytes)
  | timestamp (t : Timestamp)
  | list (items : List Value)
  /-- Members in the order in which they are gone through. -/
  | set (members : List Value)
  | map (fields : List (String × Value))
  /-- A mapping in which some name is no text. -/
  | keyed (entries : List (Value × Value))
  | record (mark : Mark) (shown : String) (attributes : List (String × Value)) (failing : List (String × String))
  deriving Inhabited

/-- The kinds of values that messages tell apart. -/
inductive Kind where
  | null | bool | int | real | text | bytes | date | instant | list | set | map | record
  deriving DecidableEq, Repr

/-- The name of a kind in messages. -/
def Kind.name : Kind → String
  | .null => "NoneType"
  | .bool => "bool"
  | .int => "int"
  | .real => "float"
  | .text => "str"
  | .bytes => "bytes"
  | .date => "datetime.date"
  | .instant => "datetime.datetime"
  | .list => "list"
  | .set => "set"
  | .map => "dict"
  | .record => "object"

namespace Value

def kind : Value → Kind
  | .null => .null
  | .bool _ => .bool
  | .int _ => .int
  | .real _ | .nan _ => .real
  | .text _ => .text
  | .bytes _ => .bytes
  | .timestamp t => if t.time.isSome then .instant else .date
  | .list _ => .list
  | .set _ => .set
  | .map _ | .keyed _ => .map
  | .record .. => .record

/-- Whether a setting with this value counts as left out: nothing, false, zero or empty. -/
def isVoid : Value → Bool
  | .null => true
  | .bool b => !b
  | .int n => n == 0
  | .real x => x == 0.0
  | .nan _ => false
  | .text s => s.isEmpty
  | .bytes content => content.isEmpty
  | .timestamp _ => false
  | .list items => items.isEmpty
  | .set members => members.isEmpty
  | .map fields => fields.isEmpty
  | .keyed entries => entries.isEmpty
  | .record .. => false

/-- The value itself unless it counts as left out. -/
def orElse (v fallback : Value) : Value := if v.isVoid then fallback else v

/-- The entries of a mapping whose names are texts. -/
def textEntries (entries : List (Value × Value)) : Table Value :=
  entries.filterMap fun entry =>
    match entry.1 with
    | .text name => some (name, entry.2)
    | _ => none

/-- The fields of a mapping; what has other names than texts is left out. -/
def fields? : Value → Option (Table Value)
  | .map fields => some fields
  | .keyed entries => some (textEntries entries)
  | _ => none

/-- A missing entry of a mapping reads as null. -/
def field (fields : Table Value) (name : String) : Value := (fields.get? name).getD .null

/-- The number in a value, or the fallback when it holds none. Booleans are no numbers. -/
def numberOr (v fallback : Value) : Value :=
  match v with
  | .int _ | .real _ | .nan _ => v
  | _ => fallback

/-- A double as a value. -/
def ofFloat (x : Float) (mark : Mark := .engine) : Value := if x.isNaN then .nan mark else .real x

def ofOption {α : Type} (f : α → Value) : Option α → Value
  | none => .null
  | some a => f a

/-- Whether a value can be a member of a set or the key of a table. Only lists, sets and mappings
cannot. -/
def isHashable : Value → Bool
  | .list _ | .set _ | .map _ | .keyed _ => false
  | _ => true

end Value

end StepFlow
