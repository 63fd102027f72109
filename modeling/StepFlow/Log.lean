import StepFlow.Json.Writer
import StepFlow.Number.Quantity
import StepFlow.Value.Display

/-!
Log lines. A line has a level, a message and fields in order, and is written as JSON or as text
with `key=value` pairs. Levels below that of the log are not written at all.
-/
namespace StepFlow.Log

inductive Level where
  | debug | info | warning | error | critical
  deriving DecidableEq, Repr

namespace Level

def rank : Level → Nat
  | .debug => 10
  | .info => 20
  | .warning => 30
  | .error => 40
  | .critical => 50

def name : Level → String
  | .debug => "DEBUG"
  | .info => "INFO"
  | .warning => "WARNING"
  | .error => "ERROR"
  | .critical => "CRITICAL"

def word : Level → String
  | .debug => "debug"
  | .info => "info"
  | .warning => "warning"
  | .error => "error"
  | .critical => "critical"

def ofName? : String → Option Level
  | "DEBUG" => some .debug
  | "INFO" => some .info
  | "WARNING" => some .warning
  | "ERROR" => some .error
  | "CRITICAL" => some .critical
  | _ => none

def ofWord? : String → Option Level
  | "debug" => some .debug
  | "info" => some .info
  | "warning" => some .warning
  | "error" => some .error
  | "critical" => some .critical
  | _ => none

end Level

/-- An event before it is written. -/
structure Event where
  level : Level
  message : String
  fields : Table Value

/-- Where events go: the run they belong to and fields that all of them share. -/
structure Sink where
  runId : Option String
  shared : Table Value

/-- A sink with further shared fields. -/
def Sink.extend (s : Sink) (more : Table Value) : Sink := { s with shared := s.shared.merge more }

/-- The run of a sink that has one. -/
def Sink.runFields (s : Sink) : Table Value :=
  match s.runId with
  | some id => if id.isEmpty then [] else [("run_id", .text id)]
  | none => []

/-- A JSON line. The fields of the event come last but for the run, which nothing hides. -/
def jsonLine (timestamp : String) (s : Sink) (e : Event) : Except Fault String :=
  let head : Table Value :=
    [("timestamp", .text timestamp), ("level", .text e.level.word), ("message", .text e.message)]
  Json.write Json.spaced (.map (((head.merge s.shared).merge e.fields).merge s.runFields))

/-- A text without the blanks at its end. -/
def trimEnd (s : String) : String := String.ofList (Text.trimRight s.toList)

/-- A text line: the message, then the run, the shared fields and those of the event. -/
def textLine (s : Sink) (e : Event) : Except Fault String := do
  let fields := (s.runFields.merge s.shared).merge e.fields
  let pairs ← fields.mapM fun (name, v) => do return name ++ "=" ++ (← v.display)
  return trimEnd ("[flow] " ++ e.message ++ " " ++ String.intercalate " " pairs)

/-- How a log is kept: as documents or as text, from which level on, and with which time. -/
structure Style where
  json : Bool
  threshold : Level
  timestamp : String

/-- Writes an event, unless its level is below the log's. -/
def Style.line? (style : Style) (s : Sink) (e : Event) :
    Except Fault (Option (Level × String)) := do
  if e.level.rank < style.threshold.rank then return none
  let text ← if style.json then jsonLine style.timestamp s e else textLine s e
  return some (e.level, text)

/-- The lines of some events. -/
def Style.lines (style : Style) (s : Sink) (events : List Event) :
    Except Fault (List (Level × String)) := do
  return (← events.mapM (style.line? s)).filterMap id

end StepFlow.Log
