import StepFlow.Definition
import StepFlow.Metrics
import StepFlow.Run.Loop

/-!
The engine: an order is checked, run inside a span, and counted. Nothing is run and no span is
begun when a part of the order is not fit; metrics count only runs that return. The log of a run is
the one that stands when nobody has set one up, which tells warnings and errors.
-/
namespace StepFlow

open Schema

/-- Something that is ready, or data that has yet to be read. -/
inductive Given (α : Type) where
  | data (v : Value)
  | ready (a : α)

def Given.read {α : Type} (reader : Reader α) : Given α → Checked α
  | .data v => reader v
  | .ready a => .ok a

/-- What is asked for in one run. What is left out is as the settings say. -/
structure Order where
  flow : Given Flow
  scopes : Option (Given Scopes)
  trigger : Given Trigger
  agentId : Option String
  flowName : Option String
  abortOnError : Option Bool
  maxSteps : Option Int

/-- The parts of an order that may be unfit. -/
inductive OrderPart where
  | flow | scopes | trigger
  deriving DecidableEq, Repr

def OrderPart.word : OrderPart → String
  | .flow => "flow"
  | .scopes => "scopes"
  | .trigger => "trigger"

structure OrderRefusal where
  part : OrderPart
  problems : List Problem
  deriving DecidableEq, Repr

def OrderRefusal.message (r : OrderRefusal) : String := "Invalid " ++ r.part.word

/-- An order that is fit, nothing left out. -/
structure Job where
  flow : Flow
  scopes : Scopes
  trigger : Trigger
  agentId : Option String
  flowName : Option String
  abortOnError : Bool
  maxSteps : Int

namespace Order

/-- The order that runs a definition under its own name and agent. -/
def ofDefinition (d : Definition) (trigger : Given Trigger) : Order :=
  { flow := .ready d.flow, scopes := some (.ready d.scopes), trigger, agentId := d.agentId
    flowName := some d.name, abortOnError := none, maxSteps := none }

/-- A part of an order, or the refusal of the order. -/
def part {α : Type} (which : OrderPart) : Checked α → Except OrderRefusal α
  | .ok a => .ok a
  | .error problems => .error ⟨which, problems⟩

/-- The first unfit part counts. A cap of zero is none. -/
def check (o : Order) (settings : Settings) : Except OrderRefusal Job := do
  let flow ← part .flow (o.flow.read Flow.read)
  let scopes ← match o.scopes with
    | some given => part .scopes (given.read Scopes.read)
    | none => .ok settings.defaultScopes
  let trigger ← part .trigger (o.trigger.read Trigger.read)
  let cap := o.maxSteps.getD 0
  return { flow, scopes, trigger, agentId := o.agentId, flowName := o.flowName
           abortOnError := o.abortOnError.getD settings.abortOnError
           maxSteps := if cap = 0 then settings.maxSteps else cap }

end Order

/-- What happens to a span after its begin. -/
inductive SpanEvent where
  | attribute (name : String) (v : Value)
  | status (word : String) (description : Option String)
  | ended

structure Span where
  name : String
  attributes : Table Value
  events : List SpanEvent

namespace Span

/-- The attributes with those that were set later. -/
def finalAttributes (s : Span) : Table Value :=
  s.events.foldl (fun attributes e =>
    match e with
    | .attribute name v => attributes.put name v
    | _ => attributes) s.attributes

/-- The status that was set last. -/
def status? (s : Span) : Option (String × Option String) :=
  s.events.reverse.findSome? fun e =>
    match e with
    | .status word description => some (word, description)
    | _ => none

def isEnded (s : Span) : Bool :=
  s.events.any fun e =>
    match e with
    | .ended => true
    | _ => false

def dump (s : Span) : Value :=
  .map [("name", .text s.name), ("attributes", .map s.finalAttributes),
    ("status", Value.ofOption
      (fun (word, description) => .list [.text word, Value.ofOption .text description]) s.status?),
    ("ended", .bool s.isEnded)]

end Span

/-- How a run went: its result, unless it was broken off, and its log. -/
structure Report where
  outcome : Except Halt RunResult
  events : List Log.Event

/-- Why an order gives no result. -/
inductive Escape where
  | refused (r : OrderRefusal)
  | halted (why : Halt)
  deriving DecidableEq, Repr

/-- Everything that carrying out an order leaves behind. -/
structure Execution where
  outcome : Except Escape RunResult
  spans : List Span
  events : List Log.Event
  metrics : Metrics

structure Engine (σ : Type) where
  host : Host σ
  executors : String → Option (Executor σ)
  settings : Settings

namespace Job

variable {σ : Type}

/-- What steps can read about the run itself. -/
def metadata (job : Job) (accountId : Value) : Table Value :=
  [("accountId", accountId), ("agentId", Value.ofOption .text job.agentId)]

def plan (job : Job) (e : Engine σ) (startedAt : Float) : Plan σ :=
  { flow := job.flow, budget := ⟨job.scopes, startedAt⟩, host := e.host
    executors := e.executors, abortOnError := job.abortOnError, maxSteps := job.maxSteps }

/-- The progress of a run that has just begun. -/
def begin (job : Job) (accountId : Value) (world : σ) : Progress σ :=
  let queue := job.flow.initialQueue
  { world, ledger := .start job.trigger (job.metadata accountId), pending := queue, traces := []
    lastOutput := .null, executed := 0
    events := [Log.flowStarted (.int job.flow.steps.length)
      (Value.ofOption .text job.flow.entryPoint) (.list (queue.map .text)) (.int job.maxSteps)] }

/-- The result of a run that has come to its end. -/
def result (job : Job) (p : Progress σ) (error : Option String) (durationMs : Float) : RunResult :=
  { success := error.isNone, output := p.lastOutput, traces := p.traces, usage := p.ledger.usage
    durationMs, error, snapshot := p.ledger.snapshot, agentId := job.agentId
    flowName := job.flowName }

def startSpan (job : Job) : Span :=
  { name := "flow.execute"
    attributes := [("flow.name", .text (job.flowName.getD "")),
      ("flow.agent_id", .text (job.agentId.getD "")),
      ("flow.step_count", .int job.flow.steps.length)]
    events := [] }

end Job

/-- What the outcome of a run does to its span. It is always ended. -/
def Report.spanEvents (r : Report) : List SpanEvent :=
  (match r.outcome with
    | .ok result =>
      [.attribute "flow.success" (.bool result.success),
        .attribute "flow.steps" (.int result.traces.length),
        .attribute "flow.total_tokens" (.int result.usage.total),
        .status (if result.success then "ok" else "error") result.error]
    | .error .cancelled => [.status "error" (some "cancelled")]
    | .error (.fault _) => []) ++ [.ended]

namespace Engine

variable {σ : Type}

/-- Milliseconds from one time in seconds to another. -/
def msBetween (began now : Float) : Float := (now - began) * 1000.0

/-- Closes the log of a run. A log that nobody has set up hears of failures only, and the line of a
failure tells the tokens in total: where they cannot be written the result is lost. -/
def close (p : Progress σ) (r : RunResult) : Report :=
  match if r.success then .ok "" else (Value.int r.usage.total).display with
  | .error f => ⟨.error (.fault f), p.events⟩
  | .ok _ => ⟨.ok r, p.events ++ [Log.flowEnded r.success (.ofFloat r.durationMs) (.int p.executed)
      (.int r.usage.total) (Value.ofOption .text r.error)]⟩

/-- Runs a job whose flow has steps. -/
def runSteps (e : Engine σ) (job : Job) (began : Float) : StateM σ Report := fun world =>
  let (startedAt, world) := e.host.seconds.run world
  match (job.plan e startedAt).walk (job.begin e.host.accountId world) with
  | (p, .brokenOff why) => (⟨.error why, p.events⟩, p.world)
  | (p, .finished error) =>
    let (now, p) := p.read e.host.seconds
    (close p (job.result p error (msBetween began now)), p.world)

/-- Runs a job. A flow without steps has a result at once and no log. -/
def run (e : Engine σ) (job : Job) : StateM σ Report := fun world =>
  let (began, world) := e.host.seconds.run world
  if job.flow.steps.isEmpty then
    let (now, world) := e.host.seconds.run world
    (⟨.ok (.empty (msBetween began now) job.agentId job.flowName), []⟩, world)
  else e.runSteps job began world

/-- The metrics after a run. -/
def counted (e : Engine σ) (m : Metrics) : Except Halt RunResult → Metrics
  | .ok result => if e.settings.metricsEnabled then m.addResult result else m
  | .error _ => m

/-- Carries out an order. -/
def execute (e : Engine σ) (order : Order) (m : Metrics) : StateM σ Execution := fun world =>
  match order.check e.settings with
  | .error refusal => (⟨.error (.refused refusal), [], [], m⟩, world)
  | .ok job =>
    let (report, world) := e.run job world
    let span := { job.startSpan with events := report.spanEvents }
    (⟨report.outcome.mapError .halted, [span], report.events, e.counted m report.outcome⟩, world)

end Engine

end StepFlow
