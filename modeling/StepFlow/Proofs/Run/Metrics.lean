import Mathlib.Algebra.Ring.Int.Defs
import Mathlib.Data.List.DropRight
import StepFlow.Proofs.Run.Exit

/-! Metrics as aggregates. Whatever has happened to metrics, they say of the results since they were
last forgotten how many there are, how their runs went and what these spent, how their traces ended,
and how long the latest of both took. Each trace and each run adds its own part. -/
namespace StepFlow

variable {σ : Type}

theorem keepLast_eq_rtake {α : Type} (cap : Nat) (xs : List α) : keepLast cap xs = xs.rtake cap := rfl

/-- How long the traces of a type took. -/
def Trace.durations (type : String) (traces : List Trace) : List Quantity :=
  (traces.filter fun t => t.type = type).map fun t => .real t.duration

theorem Trace.durations_concat (type : String) (traces : List Trace) (t : Trace) :
    durations type (traces ++ [t]) =
      durations type traces ++ if t.type = type then [.real t.duration] else [] := by
  unfold durations
  rw [List.filter_append, List.map_append, List.filter_singleton]
  by_cases hSame : t.type = type <;> simp [hSame]

/-- Metrics that are the aggregate of runs and traces. A status or a type that no trace has is not
there at all. -/
structure Metrics.Aggregates (m : Metrics) (cap : Nat) (runs : List RunResult)
    (traces : List Trace) : Prop where
  total : m.total = runs.length
  succeeded : m.succeeded = runs.countP fun r => r.success
  failed : m.failed = runs.countP fun r => !r.success
  byStatus : ∀ status, m.byStatus.get? status =
    if traces.countP (fun t => t.status.word = status) = 0 then none
    else some (traces.countP fun t => t.status.word = status)
  violations : m.violations = traces.countP fun t => t.status = .scopeViolation
  tokens : m.tokens = (runs.map fun r => r.usage.total).sum
  runDurations : m.runDurations = (runs.map fun r => .real r.durationMs).rtake cap
  stepDurations : ∀ type, m.stepDurations.get? type =
    if Trace.durations type traces = [] then none
    else some ((Trace.durations type traces).rtake cap)
  capped : m.cap = cap

namespace Metrics.Aggregates

variable {m : Metrics} {cap : Nat} {runs : List RunResult} {traces : List Trace}

theorem empty (cap : Nat) : Aggregates { Metrics.empty with cap } cap [] [] where
  total := rfl
  succeeded := rfl
  failed := rfl
  byStatus := fun _ => rfl
  violations := rfl
  tokens := rfl
  runDurations := by simp [Metrics.empty]
  stepDurations := fun _ => rfl
  capped := rfl

theorem reset (h : m.Aggregates cap runs traces) : m.reset.Aggregates cap [] [] := by
  unfold Metrics.reset
  rw [h.capped]
  exact empty cap

theorem word_eq_iff (status : Status) :
    status.word = Status.scopeViolation.word ↔ status = .scopeViolation := by
  cases status <;> decide

/-- A trace adds its status, its violation if it is one, and its duration. -/
theorem addStep (h : m.Aggregates cap runs traces) (t : Trace) :
    (m.addStep t.type t.status.word (.real t.duration)).Aggregates cap runs (traces ++ [t]) where
  total := h.total
  succeeded := h.succeeded
  failed := h.failed
  byStatus := by
    intro status
    simp only [Metrics.addStep, List.countP_append, List.countP_singleton]
    by_cases hSame : t.status.word = status
    · subst hSame
      rw [Table.get?_put_self, h.byStatus]
      split <;> simp_all
    · rw [Table.get?_put_ne (Ne.symm hSame), h.byStatus]
      simp [hSame]
  violations := by
    simp only [Metrics.addStep, List.countP_append, List.countP_singleton, h.violations, word_eq_iff,
      decide_eq_true_eq]
  tokens := h.tokens
  runDurations := h.runDurations
  stepDurations := by
    intro type
    rw [Trace.durations_concat]
    simp only [Metrics.addStep, h.capped]
    by_cases hSame : t.type = type
    · subst hSame
      have hSome : Trace.durations t.type traces ++ [Quantity.real t.duration] ≠ [] :=
        List.concat_ne_nil _ _
      rw [Table.get?_put_self, h.stepDurations, if_pos (rfl : t.type = t.type), if_neg hSome]
      split
      · rename_i hNone
        rw [hNone]
        rfl
      · rw [Option.getD_some, ← keepLast_eq_rtake, keepLast_append_keepLast, keepLast_eq_rtake]
    · rw [Table.get?_put_ne (Ne.symm hSame), h.stepDurations, if_neg hSame, List.append_nil]
  capped := h.capped

/-- A run adds one to the runs of its kind, its tokens and its duration. -/
theorem addRun (h : m.Aggregates cap runs traces) (r : RunResult) :
    (m.addRun r.success (.real r.durationMs) r.usage.total).Aggregates cap (runs ++ [r]) traces where
  total := by simp [Metrics.addRun, h.total]
  succeeded := by simp [Metrics.addRun, h.succeeded, List.countP_singleton]
  failed := by
    simp only [Metrics.addRun, h.failed, List.countP_append, List.countP_singleton]
    cases r.success <;> rfl
  byStatus := h.byStatus
  violations := h.violations
  tokens := by simp [Metrics.addRun, h.tokens]
  runDurations := by
    simp only [Metrics.addRun, h.capped, h.runDurations, ← keepLast_eq_rtake,
      keepLast_append_keepLast, List.map_append, List.map_cons, List.map_nil]
  stepDurations := h.stepDurations
  capped := h.capped

/-- A result adds its traces and its run. -/
theorem addResult (h : m.Aggregates cap runs traces) (r : RunResult) :
    (m.addResult r).Aggregates cap (runs ++ [r]) (traces ++ r.traces) := by
  have hSteps : ∀ (more : List Trace) (m : Metrics) (before : List Trace),
      m.Aggregates cap runs before →
        (more.foldl (fun m t => m.addStep t.type t.status.word (.real t.duration)) m).Aggregates cap
          runs (before ++ more) := by
    intro more
    induction more with
    | nil => intro m before h; rwa [List.append_nil]
    | cons t more ih =>
        intro m before h
        rw [List.foldl_cons, List.append_cons]
        exact ih _ _ (h.addStep t)
  exact (hSteps r.traces m traces h).addRun r

/-- Results add their traces and their runs one after the other. -/
theorem addResults (h : m.Aggregates cap runs traces) (more : List RunResult) :
    (more.foldl Metrics.addResult m).Aggregates cap (runs ++ more)
      (traces ++ more.flatMap RunResult.traces) := by
  induction more generalizing m runs traces with
  | nil => simpa using h
  | cons r more ih =>
      rw [List.foldl_cons, List.append_cons, List.flatMap_cons, ← List.append_assoc]
      exact ih (h.addResult r)

/-- Every run has either succeeded or failed. -/
theorem split (h : m.Aggregates cap runs traces) : m.total = m.succeeded + m.failed := by
  rw [h.total, h.succeeded, h.failed,
    List.length_eq_countP_add_countP (fun r : RunResult => r.success)]
  simp only [Bool.not_eq_true, Bool.decide_eq_false]

end Metrics.Aggregates

/-- The results that an execution is counted with: its own, if it returns one and metrics are
enabled. -/
def Execution.counted (x : Execution) (settings : Settings) : List RunResult :=
  match x.outcome with
  | .ok r => if settings.metricsEnabled then [r] else []
  | .error _ => []

/-- A closed execution leaves the metrics with the results added that it is counted with. -/
theorem Execution.Closed.metrics_eq {x : Execution} {settings : Settings} {order : Order}
    {m : Metrics} (h : x.Closed settings order m) :
    x.metrics = (x.counted settings).foldl Metrics.addResult m := by
  unfold Execution.counted
  cases hOutcome : x.outcome with
  | error why =>
      by_contra hOther
      obtain ⟨⟨r, hReturned⟩, -⟩ := h.changed.mp hOther
      cases hOutcome.symm.trans hReturned
  | ok r =>
      cases hEnabled : settings.metricsEnabled with
      | true => exact h.counted r hOutcome hEnabled
      | false =>
          by_contra hOther
          cases hEnabled.symm.trans (h.changed.mp hOther).2

/-- What happens to metrics: an engine carries out an order with them, or they are forgotten. -/
inductive Occasion (σ : Type) where
  | execution (e : Engine σ) (order : Order) (world : σ)
  | reset

/-- The metrics after an occasion, and the results that were counted since they were last
forgotten. -/
def Occasion.after (state : Metrics × List RunResult) : Occasion σ → Metrics × List RunResult
  | .execution e order world =>
    let x := (e.execute order state.1 world).1
    (x.metrics, state.2 ++ x.counted e.settings)
  | .reset => (state.1.reset, [])

/-- Metrics that are the aggregate of the results still are it after an occasion. -/
theorem Occasion.aggregates {cap : Nat} {state : Metrics × List RunResult}
    (h : state.1.Aggregates cap state.2 (state.2.flatMap RunResult.traces)) (occasion : Occasion σ) :
    (occasion.after state).1.Aggregates cap (occasion.after state).2
      ((occasion.after state).2.flatMap RunResult.traces) := by
  cases occasion with
  | reset => exact h.reset
  | execution e order world =>
      simp only [after, (e.closed_execute order state.1 world).metrics_eq, List.flatMap_append]
      exact h.addResults _

/-- After any occasions, metrics are the aggregate of the results that were counted since they were
last forgotten. -/
theorem metrics_aggregate (cap : Nat) (occasions : List (Occasion σ)) :
    let state := occasions.foldl Occasion.after ({ Metrics.empty with cap }, [])
    state.1.total = state.1.succeeded + state.1.failed ∧
      state.1.Aggregates cap state.2 (state.2.flatMap RunResult.traces) := by
  intro state
  have hRun : ∀ start : Metrics × List RunResult,
      start.1.Aggregates cap start.2 (start.2.flatMap RunResult.traces) →
        (occasions.foldl Occasion.after start).1.Aggregates cap
          (occasions.foldl Occasion.after start).2
          ((occasions.foldl Occasion.after start).2.flatMap RunResult.traces) := by
    induction occasions with
    | nil => exact fun _ h => h
    | cons occasion occasions ih => exact fun start h => ih _ (occasion.aggregates h)
  have hState := hRun ({ Metrics.empty with cap }, []) (.empty cap)
  exact ⟨hState.split, hState⟩

end StepFlow
