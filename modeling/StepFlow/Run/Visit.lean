import StepFlow.Expr.Template
import StepFlow.Run.Progress

/-!
Visiting one item of the queue. A visit ends in one of nine ways before the executor is called, or
calls it once and writes its result; nothing that an executor does but cancelling keeps the result
from being written.
-/
namespace StepFlow.Plan

variable {σ : Type}

/-- Goes on after a failure, unless failures end the run. -/
def afterFailure (plan : Plan σ) (p : Progress σ) (error : String) : Visited σ :=
  if plan.abortOnError then .ended p error else .goesOn p

/-- A queue may hold the id of no step. -/
def visitUnknown (plan : Plan σ) (id : String) (p : Progress σ) : Visited σ :=
  plan.afterFailure
    (p.withFailure plan.host id "unknown" ("Step \"" ++ id ++ "\" not found in flow definition"))
    ("Step \"" ++ id ++ "\" not found")

/-- A branch may queue a step again that has run. -/
def visitAgain (plan : Plan σ) (s : Step) (p : Progress σ) : Visited σ :=
  .goesOn (p.withInstant plan.host s.id s.type .skipped none
    (.map [("reason", .text "already_executed")]))

/-- The trace and the event of a step whose condition does not hold. -/
def visitSkipped (plan : Plan σ) (s : Step) (condition : String)
    (diagnostics : List Expr.Diagnostic) (p : Progress σ) : Visited σ :=
  let details := if diagnostics.isEmpty then []
    else [("diagnostics", Value.list (diagnostics.map fun d => .text d.text))]
  .goesOn ((p.withInstant plan.host s.id s.type .skipped none
    (.map ([("condition", .text condition), ("result", .bool false)] ++ details))).withEvent
    (Log.stepSkipped (.text s.id) (.text condition)))

/-- The outcome of an executor as a result. A fault becomes an error of the step. -/
def resultOf : Except Fault StepResult → StepResult
  | .ok r => r
  | .error f => .failure (f.messageOr "Executor threw an exception")

/-- The entry that a result is written as. -/
def entryOf (s : Step) (started completed : Float) (r : StepResult) : Entry :=
  ⟨s.id, s.type, r.output, .real started, .real completed, r.usage, r.error⟩

def traceOf (s : Step) (started completed : Float) (r : StepResult) : Trace :=
  { stepId := s.id, type := s.type, status := if r.failed then .error else .completed
    startedAt := started, completedAt := completed, output := r.output, error := r.error
    usage := r.usage, metadata := r.metadata }

/-- The event of a step that has run. -/
def eventOf (s : Step) (started completed : Float) (r : StepResult) : Log.Event :=
  if r.failed then Log.stepFailed (.text s.id) (.text s.type) (Value.ofOption .text r.error)
  else Log.stepCompleted (.text s.id) (.text s.type) (.ofFloat (completed - started))
    (.int (match r.usage with
      | some u => u.total
      | none => 0))

/-- The progress with a result written, traced and counted. The ledger takes no second entry of a
step. -/
def recorded (p : Progress σ) (s : Step) (started completed : Float) (r : StepResult) :
    Except Fault (Progress σ) :=
  match p.ledger.write? (entryOf s started completed r) with
  | none => .error (.alreadyWritten s.id)
  | some ledger =>
    .ok { p with
      ledger
      traces := p.traces ++ [traceOf s started completed r]
      lastOutput := if r.failed then p.lastOutput else r.output
      executed := p.executed + 1
      events := p.events ++ [eventOf s started completed r] }

/-- What is recorded is one further entry, one further trace and one further execution. -/
theorem recorded_eq_ok {p q : Progress σ} {s : Step} {started completed : Float} {r : StepResult}
    (h : recorded p s started completed r = .ok q) :
    p.ledger.has s.id = false ∧
      q = { p with
        ledger := { p.ledger with entries := p.ledger.entries ++ [entryOf s started completed r] }
        traces := p.traces ++ [traceOf s started completed r]
        lastOutput := if r.failed then p.lastOutput else r.output
        executed := p.executed + 1
        events := p.events ++ [eventOf s started completed r] } := by
  unfold recorded Ledger.write? at h
  by_cases hs : p.ledger.has s.id = true
  · simp [entryOf, hs] at h
  · simp only [entryOf, hs, Bool.false_eq_true, if_false, Except.ok.injEq] at h
    exact ⟨by simpa using hs, h.symm⟩

/-- The steps of a branch that are steps of the flow and have not run. -/
def branchFrom (plan : Plan σ) (l : Ledger) (target : String) : List String :=
  (plan.flow.chainFrom target).filter fun id => (plan.flow.step? id).isSome && !l.has id

/-- The target that a router has chosen, if it is a step. Lists and mappings cannot even be
looked for. -/
def chosenTarget (plan : Plan σ) (s : Step) (r : StepResult) : Except Fault (Option String) :=
  if s.type = Flow.routerType && !r.nextBranch.isVoid then
    match r.nextBranch with
    | .text id => .ok (if (plan.flow.step? id).isSome then some id else none)
    | v => if v.isHashable then .ok none else .error (.unhashable v.kind)
  else .ok none

/-- Queues the branch of a router behind everything else. -/
def withBranch (plan : Plan σ) (s : Step) (target : String) (p : Progress σ) : Progress σ :=
  let branch := plan.branchFrom p.ledger target
  ({ p with pending := p.pending ++ branch } : Progress σ).withEvent
    (Log.routingDecision (.text s.id) (.text target) (.list (branch.map .text)))

/-- The progress with the branch that a router has chosen, if there is one. -/
def branched (plan : Plan σ) (s : Step) (p : Progress σ) : Option String → Progress σ
  | some target => plan.withBranch s target p
  | none => p

/-- What follows when a result is written: the limit of tokens, the branch, the end on errors. -/
def afterResult (plan : Plan σ) (s : Step) (r : StepResult) (p : Progress σ) : Visited σ :=
  match plan.budget.checkAfter p.ledger with
  | .error f => .brokenOff p (.fault f)
  | .ok (some v) => .ended (p.withViolation plan.host s v) v.message
  | .ok none =>
    match plan.chosenTarget s r with
    | .error f => .brokenOff p (.fault f)
    | .ok target =>
      let p := plan.branched s p target
      if r.failed then plan.afterFailure p (r.error.getD "") else .goesOn p

/-- Writes the result of a step that began at a time and ends now. -/
def conclude (plan : Plan σ) (s : Step) (started : Float) (r : StepResult) (p : Progress σ) :
    Visited σ :=
  let (completed, p) := p.read plan.host.stamp
  match recorded p s started completed r with
  | .error f => .brokenOff p (.fault f)
  | .ok p => plan.afterResult s r p

/-- Calls the executor of a step and writes what it comes to. -/
def execute (plan : Plan σ) (executor : Executor σ) (s : Step) (p : Progress σ) : Visited σ :=
  let (started, p) := p.read plan.host.stamp
  match (Act.attempt (executor s p.ledger plan.budget)).perform p.world with
  | (.error why, world) => .brokenOff { p with world } why
  | (.ok outcome, world) => plan.conclude s started (resultOf outcome) { p with world }

/-- Looks the executor of a step up and calls it. -/
def dispatch (plan : Plan σ) (s : Step) (p : Progress σ) : Visited σ :=
  match plan.executors s.type with
  | some executor => plan.execute executor s p
  | none =>
    let error := "No executor registered for type \"" ++ s.type ++ "\""
    plan.afterFailure (p.withFailure plan.host s.id s.type error) error

/-- Visits a step that is within its time and has not run: its condition decides. -/
def visitConditioned (plan : Plan σ) (s : Step) (p : Progress σ) : Visited σ :=
  match s.condition with
  | none => plan.dispatch s p
  | some condition =>
    if condition.isEmpty then plan.dispatch s p
    else
      match Expr.condition condition p.ledger.context with
      | (.error f, _) => .brokenOff p (.fault f)
      | (.ok true, _) => plan.dispatch s p
      | (.ok false, diagnostics) => plan.visitSkipped s condition diagnostics p

/-- Checks the time. The clock is read only when there is a limit. -/
def checkTime (plan : Plan σ) (p : Progress σ) : Except Fault (Option Violation) × Progress σ :=
  if plan.budget.scopes.maxExecutionTimeMs ≤ 0 then (.ok none, p)
  else
    let (now, p) := p.read plan.host.seconds
    (plan.budget.checkTime now, p)

/-- Visits a step of the flow. -/
def visitStep (plan : Plan σ) (s : Step) (p : Progress σ) : Visited σ :=
  if p.ledger.has s.id then plan.visitAgain s p
  else
    match plan.checkTime p with
    | (.error f, p) => .brokenOff p (.fault f)
    | (.ok (some v), p) => .ended (p.withViolation plan.host s v) v.message
    | (.ok none, p) => plan.visitConditioned s p

/-- Ends the run at its cap of steps, which has to be told. -/
def stopAtCap (plan : Plan σ) (p : Progress σ) : Visited σ :=
  match (Value.int plan.maxSteps).display with
  | .error f => .brokenOff p (.fault f)
  | .ok cap => .ended p ("Max steps limit reached (" ++ cap ++ ")")

/-- Visits an item of the queue. At the cap of executed steps the run ends instead. -/
def visit (plan : Plan σ) (id : String) (p : Progress σ) : Visited σ :=
  if plan.maxSteps ≤ p.executed then plan.stopAtCap p
  else
    match plan.flow.step? id with
    | none => plan.visitUnknown id p
    | some s => plan.visitStep s p

end StepFlow.Plan
