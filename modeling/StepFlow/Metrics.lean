import StepFlow.Number.Ranked
import StepFlow.Run.Trace

/-!
Metrics of runs: counts of runs and traces by their outcome, tokens spent, and durations. Of each
kind of duration only the latest are kept, up to a cap.
-/
namespace StepFlow

/-- The last entries of a list, at most so many. -/
def keepLast {α : Type} (cap : Nat) (xs : List α) : List α := xs.drop (xs.length - cap)

/-- Cutting on the way makes no difference to what is kept in the end. -/
theorem keepLast_append_keepLast {α : Type} (cap : Nat) (xs ys : List α) :
    keepLast cap (keepLast cap xs ++ ys) = keepLast cap (xs ++ ys) := by
  simp only [keepLast, List.length_append, List.length_drop, List.drop_append, List.drop_drop]
  congr 1
  · congr 1
    omega
  · congr 1
    omega

structure Metrics where
  total : Nat
  succeeded : Nat
  failed : Nat
  byStatus : Table Nat
  violations : Nat
  tokens : Int
  runDurations : List Quantity
  stepDurations : Table (List Quantity)
  cap : Nat

namespace Metrics

/-- How many durations of one kind are kept unless something else is said. -/
def standardCap : Nat := 1000

def empty : Metrics := ⟨0, 0, 0, [], 0, 0, [], [], standardCap⟩

/-- Adds a run that has returned. -/
def addRun (m : Metrics) (success : Bool) (duration : Quantity) (tokens : Int) : Metrics :=
  { m with
    total := m.total + 1
    succeeded := m.succeeded + (if success then 1 else 0)
    failed := m.failed + (if success then 0 else 1)
    tokens := m.tokens + tokens
    runDurations := keepLast m.cap (m.runDurations ++ [duration]) }

/-- Adds one trace. -/
def addStep (m : Metrics) (type status : String) (duration : Quantity) : Metrics :=
  { m with
    byStatus := m.byStatus.put status ((m.byStatus.get? status).getD 0 + 1)
    violations := m.violations + (if status = Status.scopeViolation.word then 1 else 0)
    stepDurations := m.stepDurations.put type
      (keepLast m.cap ((m.stepDurations.get? type).getD [] ++ [duration])) }

/-- Adds a result: its traces in order, and then the run. -/
def addResult (m : Metrics) (r : RunResult) : Metrics :=
  (r.traces.foldl (fun m t => m.addStep t.type t.status.word (.real t.duration)) m).addRun
    r.success (.real r.durationMs) r.usage.total

/-- Forgets everything but the cap. -/
def reset (m : Metrics) : Metrics := { empty with cap := m.cap }

/-- The value below which a part of the durations lies, between two of them in proportion. -/
def percentile (durations : List Quantity) (part : Float) : Except Fault (Option Quantity) :=
  let ranked := Quantity.ranked durations
  let place := (ranked.length - 1).toFloat * part
  let below := place.floor.toUInt64.toNat
  match ranked[below]? with
  | none => .ok none
  | some p => Fault.ofRange do
    let step ← ((ranked[below + 1]?).getD p).sub? p
    return some (← p.add? (← (Quantity.real (place - below.toFloat)).mul? step))

def percentileValue (durations : List Quantity) (part : Float) : Except Fault Value := do
  return Value.ofOption Value.ofQuantity (← percentile durations part)

/-- The part of the runs that succeeded, if there were any. -/
def successRate (m : Metrics) : Value :=
  if m.total = 0 then .null else .real (Number.nearest false m.succeeded m.total)

def stats (m : Metrics) : Except Fault Value := do
  let runs ← [("p50", 0.5), ("p95", 0.95), ("p99", 0.99)].mapM fun (name, part) => do
    return (name, ← percentileValue m.runDurations part)
  let steps ← m.stepDurations.mapM fun (type, ds) => do
    return (type, ← percentileValue ds 0.5)
  return .map [("executions", .map [("total", .int m.total), ("success", .int m.succeeded),
      ("failed", .int m.failed), ("success_rate", m.successRate)]),
    ("duration_ms", .map runs),
    ("steps", .map (m.byStatus.map fun (status, n) => (status, .int n))),
    ("step_duration_p50_ms", .map steps),
    ("scope_violations", .int m.violations), ("tokens_total", .int m.tokens)]

/-- The durations that are kept. -/
def kept (m : Metrics) : Value :=
  .map [("durations", .list (m.runDurations.map .ofQuantity)),
    ("steps", .map (m.stepDurations.map fun (type, ds) => (type, .list (ds.map .ofQuantity))))]

end Metrics

end StepFlow
