import StepFlow.Proofs.Run.Reach

/-! Runs that are watched. Every executor also notes the call that it gets and how it came out, in
a list that stands beside the world and that nothing reads. A watched run is the run that it
watches, so what the notes say is what happened. -/
namespace StepFlow

variable {σ τ α : Type}

/-- One call of an executor: the step, the ledger that it was shown, and what it came to. -/
structure Call where
  step : Step
  ledger : Ledger
  outcome : Except Halt StepResult

/-- An act on the first part of a world, which leaves the second alone. -/
def Act.aside (act : Act σ α) : Act (σ × τ) α := fun w =>
  ((act.perform w.1).1, ((act.perform w.1).2, w.2))

/-- The same for an act that cannot fail. -/
def stateAside (act : StateM σ α) : StateM (σ × τ) α := fun w =>
  ((act.run w.1).1, ((act.run w.1).2, w.2))

/-- The capabilities and clocks of a host beside notes. -/
def Host.aside (host : Host σ) : Host (σ × τ) :=
  { callModel := fun c => Act.aside (host.callModel c)
    search := fun c => Act.aside (host.search c)
    callTool := fun c => Act.aside (host.callTool c)
    seconds := stateAside host.seconds
    stamp := stateAside host.stamp
    accountId := host.accountId
    providerOrder := host.providerOrder
    settings := host.settings }

/-- An executor that notes its calls. -/
def Executor.watched (executor : Executor σ) : Executor (σ × List Call) := fun s l b w =>
  let (outcome, world) := (executor s l b).perform w.1
  (outcome, (world, w.2 ++ [⟨s, l, outcome⟩]))

theorem Executor.perform_watched (executor : Executor σ) (s : Step) (l : Ledger) (b : Budget)
    (w : σ × List Call) :
    (executor.watched s l b).perform w =
      (((executor s l b).perform w.1).1,
        (((executor s l b).perform w.1).2, w.2 ++ [⟨s, l, ((executor s l b).perform w.1).1⟩])) := rfl

/-- A plan whose executors note their calls. -/
def Plan.watched (plan : Plan σ) : Plan (σ × List Call) :=
  { flow := plan.flow
    budget := plan.budget
    host := plan.host.aside
    executors := fun type => (plan.executors type).map Executor.watched
    abortOnError := plan.abortOnError
    maxSteps := plan.maxSteps }

/-- A progress beside whose world nothing is noted yet. -/
def Progress.watched (p : Progress σ) : Progress (σ × List Call) :=
  { world := (p.world, [])
    ledger := p.ledger
    pending := p.pending
    traces := p.traces
    lastOutput := p.lastOutput
    executed := p.executed
    events := p.events }

/-- A progress without the notes beside its world. -/
def Progress.unwatched (p : Progress (σ × τ)) : Progress σ :=
  { world := p.world.1
    ledger := p.ledger
    pending := p.pending
    traces := p.traces
    lastOutput := p.lastOutput
    executed := p.executed
    events := p.events }

def Visited.unwatched : Visited (σ × τ) → Visited σ
  | .goesOn p => .goesOn p.unwatched
  | .ended p error => .ended p.unwatched error
  | .brokenOff p why => .brokenOff p.unwatched why

namespace Plan

variable {plan : Plan σ} {p : Progress (σ × List Call)}

theorem unwatched_afterFailure (error : String) :
    (plan.watched.afterFailure p error).unwatched = plan.afterFailure p.unwatched error := by
  unfold afterFailure
  change Visited.unwatched (if plan.abortOnError = true then _ else _) = _
  split <;> rfl

theorem unwatched_branched (s : Step) (target : Option String) :
    (plan.watched.branched s p target).unwatched = plan.branched s p.unwatched target := by
  cases target <;> rfl

theorem unwatched_afterResult (s : Step) (r : StepResult) :
    (plan.watched.afterResult s r p).unwatched = plan.afterResult s r p.unwatched := by
  have hBudget : plan.watched.budget = plan.budget := rfl
  have hLedger : p.unwatched.ledger = p.ledger := rfl
  have hTarget : plan.watched.chosenTarget s r = plan.chosenTarget s r := rfl
  unfold afterResult
  rw [hBudget, hLedger, hTarget]
  cases plan.budget.checkAfter p.ledger with
  | error f => rfl
  | ok v =>
      cases v with
      | some v => rfl
      | none =>
          cases plan.chosenTarget s r with
          | error f => rfl
          | ok target =>
              simp only
              split
              · rw [unwatched_afterFailure, unwatched_branched]
              · rw [Visited.unwatched, unwatched_branched]

theorem recorded_unwatched (s : Step) (started completed : Float) (r : StepResult) :
    recorded p.unwatched s started completed r =
      (recorded p s started completed r).map Progress.unwatched := by
  have hLedger : p.unwatched.ledger = p.ledger := rfl
  unfold recorded
  rw [hLedger]
  cases p.ledger.write? (entryOf s started completed r) <;> rfl

theorem unwatched_read (clock : StateM σ Float) :
    p.unwatched.read clock =
      ((p.read (stateAside clock)).1, (p.read (stateAside clock)).2.unwatched) := rfl

theorem unwatched_conclude (s : Step) (started : Float) (r : StepResult) :
    (plan.watched.conclude s started r p).unwatched = plan.conclude s started r p.unwatched := by
  have hStamp : plan.watched.host.stamp = stateAside plan.host.stamp := rfl
  unfold conclude
  rw [unwatched_read, hStamp]
  cases p.read (stateAside plan.host.stamp) with
  | mk completed q =>
      simp only
      rw [recorded_unwatched]
      cases recorded q s started completed r with
      | error f => rfl
      | ok written => exact unwatched_afterResult s r

/-- A watched executor answers as the executor does, and its call is noted in either case. -/
theorem perform_attempt_watched (executor : Executor σ) (s : Step) (l : Ledger) (b : Budget)
    (w : σ × List Call) :
    (Act.attempt (executor.watched s l b)).perform w =
      (((Act.attempt (executor s l b)).perform w.1).1,
        (((Act.attempt (executor s l b)).perform w.1).2,
          w.2 ++ [⟨s, l, ((executor s l b).perform w.1).1⟩])) := by
  unfold Act.perform Act.attempt Executor.watched Act.perform
  simp only [ExceptT.run]
  cases h : (executor s l b) w.1 with
  | mk outcome world =>
      rcases outcome with (f | _) | r <;> simp

theorem unwatched_execute (executor : Executor σ) (s : Step) :
    (plan.watched.execute executor.watched s p).unwatched =
      plan.execute executor s p.unwatched := by
  have hStamp : plan.watched.host.stamp = stateAside plan.host.stamp := rfl
  have hBudget : plan.watched.budget = plan.budget := rfl
  unfold execute
  rw [unwatched_read, hStamp, hBudget]
  cases p.read (stateAside plan.host.stamp) with
  | mk started q =>
      have hLedger : q.unwatched.ledger = q.ledger := rfl
      have hWorld : q.unwatched.world = q.world.1 := rfl
      simp only
      rw [perform_attempt_watched, hLedger, hWorld]
      cases (Act.attempt (executor s q.ledger plan.budget)).perform q.world.1 with
      | mk outcome world =>
          cases outcome with
          | error why => rfl
          | ok outcome => exact unwatched_conclude s started (resultOf outcome)

theorem unwatched_dispatch (s : Step) :
    (plan.watched.dispatch s p).unwatched = plan.dispatch s p.unwatched := by
  have hServed :
      plan.watched.executors s.type = (plan.executors s.type).map Executor.watched := rfl
  unfold dispatch
  rw [hServed]
  cases plan.executors s.type with
  | none => exact unwatched_afterFailure _
  | some executor => exact unwatched_execute executor s

theorem unwatched_visitConditioned (s : Step) :
    (plan.watched.visitConditioned s p).unwatched = plan.visitConditioned s p.unwatched := by
  have hLedger : p.unwatched.ledger = p.ledger := rfl
  unfold visitConditioned
  cases s.condition with
  | none => exact unwatched_dispatch s
  | some c =>
      simp only
      split
      · exact unwatched_dispatch s
      · rw [hLedger]
        rcases Expr.condition c p.ledger.context with ⟨f | (_ | _), diagnostics⟩
        · rfl
        · rfl
        · exact unwatched_dispatch s

/-- Reading the clock beside notes reads the clock. -/
theorem unwatched_checkTime :
    plan.checkTime p.unwatched =
      ((plan.watched.checkTime p).1, (plan.watched.checkTime p).2.unwatched) := by
  have hBudget : plan.watched.budget = plan.budget := rfl
  by_cases hLimit : plan.budget.scopes.maxExecutionTimeMs ≤ 0
  · simp only [checkTime, hBudget, hLimit, if_true]
  · simp only [checkTime, hBudget, hLimit, if_false]
    rfl

theorem unwatched_visitStep (s : Step) :
    (plan.watched.visitStep s p).unwatched = plan.visitStep s p.unwatched := by
  have hLedger : p.unwatched.ledger = p.ledger := rfl
  unfold visitStep
  rw [hLedger, unwatched_checkTime]
  split
  · rfl
  · rcases plan.watched.checkTime p with ⟨f | (_ | v), q⟩
    · rfl
    · exact unwatched_visitConditioned s
    · rfl

theorem unwatched_stopAtCap :
    (plan.watched.stopAtCap p).unwatched = plan.stopAtCap p.unwatched := by
  have hCap : plan.watched.maxSteps = plan.maxSteps := rfl
  unfold stopAtCap
  rw [hCap]
  cases (Value.int plan.maxSteps).display <;> rfl

/-- A watched visit is the visit. -/
theorem unwatched_visit (id : String) :
    (plan.watched.visit id p).unwatched = plan.visit id p.unwatched := by
  have hCap : plan.watched.maxSteps = plan.maxSteps := rfl
  have hFlow : plan.watched.flow = plan.flow := rfl
  have hExecuted : p.unwatched.executed = p.executed := rfl
  unfold visit
  rw [hCap, hFlow, hExecuted]
  split
  · exact unwatched_stopAtCap
  · cases plan.flow.step? id with
    | none => exact unwatched_afterFailure _
    | some s => exact unwatched_visitStep s

theorem next?_unwatched (plan : Plan σ) (p : Progress (σ × List Call)) :
    plan.next? p.unwatched = (plan.watched.next? p).map Visited.unwatched := by
  have hPending : p.unwatched.pending = p.pending := rfl
  unfold next?
  rw [hPending]
  cases p.pending with
  | nil => rfl
  | cons id rest => exact congrArg some (unwatched_visit (p := { p with pending := rest }) id).symm

/-- A watched walk is the walk. -/
theorem walk_unwatched (plan : Plan σ) (p : Progress (σ × List Call)) :
    plan.walk p.unwatched = ((plan.watched.walk p).1.unwatched, (plan.watched.walk p).2) := by
  rw [walk_eq, next?_unwatched]
  fun_induction walk plan.watched p with
  | case1 p hp => simp [next?, hp]
  | case2 p id rest hp q hv ih =>
      simp only [next?, hp, hv, Option.map_some, Visited.unwatched]
      rw [walk_eq, next?_unwatched]
      exact ih
  | case3 p id rest hp q error hv => simp [next?, hp, hv, Visited.unwatched]
  | case4 p id rest hp q why hv => simp [next?, hp, hv, Visited.unwatched]

end Plan

end StepFlow
