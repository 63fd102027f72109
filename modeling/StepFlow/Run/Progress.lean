import StepFlow.Executor.Basic
import StepFlow.Flow.Chain
import StepFlow.Flow.Audit
import StepFlow.Log.RunEvent
import StepFlow.Run.Trace

/-!
Plans and progress of runs. The plan of a run never changes; its progress is the world, the ledger,
the traces so far, the ids still to visit, and what else later steps depend on.
-/
namespace StepFlow

/-- What a run is to do, and with what. -/
structure Plan (σ : Type) where
  flow : Flow
  budget : Budget
  host : Host σ
  executors : String → Option (Executor σ)
  abortOnError : Bool
  maxSteps : Int

structure Progress (σ : Type) where
  world : σ
  ledger : Ledger
  pending : List String
  traces : List Trace
  lastOutput : Value
  executed : Nat
  events : List Log.Event

/-- What a visit to one item comes to: the run goes on, has ended with an error, or is broken off
by something that is no error of a step. -/
inductive Visited (σ : Type) where
  | goesOn (p : Progress σ)
  | ended (p : Progress σ) (error : String)
  | brokenOff (p : Progress σ) (why : Halt)

namespace Progress

variable {σ : Type}

def withTrace (p : Progress σ) (t : Trace) : Progress σ := { p with traces := p.traces ++ [t] }

def withEvent (p : Progress σ) (e : Log.Event) : Progress σ := { p with events := p.events ++ [e] }

/-- Reads a clock of the world. -/
def read (p : Progress σ) (clock : StateM σ Float) : Float × Progress σ :=
  let (x, world) := clock.run p.world
  (x, { p with world })

/-- Adds a trace that takes no time. -/
def withInstant (p : Progress σ) (host : Host σ) (stepId type : String) (status : Status)
    (error : Option String) (metadata : Value) : Progress σ :=
  let (now, p) := p.read host.stamp
  p.withTrace (.instant stepId type status now error metadata)

/-- Records a violation of the scopes by a step. -/
def withViolation (p : Progress σ) (host : Host σ) (s : Step) (v : Violation) : Progress σ :=
  (p.withInstant host s.id s.type .scopeViolation (some v.message)
    (.map [("violationType", .text v.type.word)])).withEvent
    (Log.scopeViolation (.text s.id) (.text v.type.word) (.text v.message))

/-- Records a step that failed before it reached an executor. -/
def withFailure (p : Progress σ) (host : Host σ) (id type error : String) : Progress σ :=
  (p.withInstant host id type .error (some error) .null).withEvent
    (Log.stepFailed (.text id) (.text type) (.text error))

end Progress

end StepFlow
