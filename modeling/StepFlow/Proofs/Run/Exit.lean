import StepFlow.Run.Engine

/-! The ways out of an execution. An order that is refused begins no span. Any other one has a span,
which is ended once on every way out, and is counted when it returns. -/
namespace StepFlow

variable {σ : Type}

/-- A span is ended once, after everything else that happens to it. -/
def Span.EndedOnce (s : Span) : Prop := ∃ before, s.events = before ++ [.ended] ∧ .ended ∉ before

/-- How an execution is closed. An order that is fit has one span, which is ended once and says that
all went well just when a success is returned. The metrics change just when a result is returned and
they are enabled, and then by that result. -/
structure Execution.Closed (x : Execution) (settings : Settings) (order : Order) (m : Metrics) :
    Prop where
  span : ∀ job, order.check settings = .ok job → ∃ span, x.spans = [span] ∧ span.EndedOnce ∧
    ((∃ description, span.status? = some ("ok", description)) ↔
      ∃ r, x.outcome = .ok r ∧ r.success = true)
  changed : x.metrics ≠ m ↔ (∃ r, x.outcome = .ok r) ∧ settings.metricsEnabled = true
  counted : ∀ r, x.outcome = .ok r → settings.metricsEnabled = true → x.metrics = m.addResult r

/-- A span says that a run went well just when the run returns a success. -/
theorem Report.closed_spanEvents (r : Report) (s : Span) (hEvents : s.events = r.spanEvents) :
    s.EndedOnce ∧
      ((∃ description, s.status? = some ("ok", description)) ↔
        ∃ result, r.outcome = .ok result ∧ result.success = true) := by
  obtain ⟨name, attributes, events⟩ := s
  obtain ⟨outcome, log⟩ := r
  subst hEvents
  rcases outcome with (f | _) | result
  · exact ⟨⟨[], rfl, nofun⟩, by simp [Span.status?, spanEvents]⟩
  · exact ⟨⟨_, rfl, by simp⟩, by simp [Span.status?, spanEvents]⟩
  · refine ⟨⟨_, rfl, by simp⟩, ?_⟩
    cases hSuccess : result.success with
    | true => simp [Span.status?, spanEvents, hSuccess]
    | false => simp [Span.status?, spanEvents, hSuccess]

theorem Metrics.total_addStep (m : Metrics) (type status : String) (duration : Quantity) :
    (m.addStep type status duration).total = m.total := rfl

/-- Metrics count one run more for every result that is added. -/
theorem Metrics.total_addResult (m : Metrics) (r : RunResult) :
    (m.addResult r).total = m.total + 1 := by
  have hSteps : ∀ (traces : List Trace) (m : Metrics),
      (traces.foldl (fun m t => m.addStep t.type t.status.word (.real t.duration)) m).total =
        m.total := by
    intro traces
    induction traces with
    | nil => exact fun _ => rfl
    | cons t traces ih => exact fun m => (ih _).trans (total_addStep m _ _ _)
  rw [← hSteps r.traces m]
  rfl

namespace Escape

variable {outcome : Except Halt RunResult}

theorem mapError_eq_ok_iff {r : RunResult} :
    outcome.mapError halted = .ok r ↔ outcome = .ok r := by
  cases outcome with
  | ok result => exact ⟨fun h => by cases h; rfl, fun h => by cases h; rfl⟩
  | error why => exact ⟨nofun, nofun⟩

theorem mapError_eq_halted_iff {why : Halt} :
    outcome.mapError halted = .error (.halted why) ↔ outcome = .error why := by
  cases outcome with
  | ok result => exact ⟨nofun, nofun⟩
  | error given => exact ⟨fun h => by cases h; rfl, fun h => by cases h; rfl⟩

end Escape

namespace Engine

variable {e : Engine σ} {order : Order} {job : Job} {m : Metrics} {world : σ}

theorem execute_of_check (hOrder : order.check e.settings = .ok job) :
    e.execute order m world =
      (⟨(e.run job world).1.outcome.mapError .halted,
        [{ job.startSpan with events := (e.run job world).1.spanEvents }],
        (e.run job world).1.events, e.counted m (e.run job world).1.outcome⟩,
        (e.run job world).2) := by
  unfold execute
  rw [hOrder]
  rfl

theorem execute_of_refused {refusal : OrderRefusal} (hOrder : order.check e.settings = .error refusal) :
    e.execute order m world = (⟨.error (.refused refusal), [], [], m⟩, world) := by
  unfold execute
  rw [hOrder]

/-- Metrics count a run just when it returns and is to be counted. -/
theorem counted_ne_iff (outcome : Except Halt RunResult) :
    e.counted m outcome ≠ m ↔ (∃ r, outcome = .ok r) ∧ e.settings.metricsEnabled = true := by
  cases outcome with
  | error why => simp [counted]
  | ok r =>
      have hMore : m.addResult r ≠ m := by
        intro hSame
        have hTotal := m.total_addResult r
        rw [hSame] at hTotal
        omega
      cases hEnabled : e.settings.metricsEnabled with
      | true => simp [counted, hEnabled, hMore]
      | false => simp [counted, hEnabled]

/-- Every execution is closed, whatever it comes to. -/
theorem closed_execute (e : Engine σ) (order : Order) (m : Metrics) (world : σ) :
    (e.execute order m world).1.Closed e.settings order m := by
  cases hOrder : order.check e.settings with
  | error refusal =>
      rw [execute_of_refused hOrder]
      refine ⟨?_, by simp, nofun⟩
      intro job hFit
      rw [hOrder] at hFit
      cases hFit
  | ok job =>
      rw [execute_of_check hOrder]
      refine ⟨fun _ _ => ⟨_, rfl, ?_⟩, ?_, ?_⟩
      · simp only [Escape.mapError_eq_ok_iff]
        exact Report.closed_spanEvents _ _ rfl
      · simp only [Escape.mapError_eq_ok_iff]
        exact counted_ne_iff _
      · intro r hOutcome hEnabled
        rw [Escape.mapError_eq_ok_iff] at hOutcome
        simp only [hOutcome, counted, hEnabled, if_true]

end Engine

end StepFlow
