import StepFlow.Proofs.Run.Turn
import StepFlow.Run.Engine

/-! Runs as sequences of visits. A walk reaches progress after progress, each by a visit after
which it goes on, until the queue is empty or a last visit ends it or breaks it off. What every
visit preserves holds of all that a walk reaches. -/
namespace StepFlow

variable {σ : Type}

namespace Plan

/-- The visit that comes next, unless the queue is empty. -/
def next? (plan : Plan σ) (p : Progress σ) : Option (Visited σ) :=
  match p.pending with
  | [] => none
  | id :: rest => some (plan.visit id { p with pending := rest })

theorem next?_eq_none_iff {plan : Plan σ} {p : Progress σ} :
    plan.next? p = none ↔ p.pending = [] := by
  unfold next?
  cases p.pending <;> simp

/-- The next visit is that of the first item which waits. -/
theorem next?_eq_some_iff {plan : Plan σ} {p : Progress σ} {v : Visited σ} :
    plan.next? p = some v ↔
      ∃ id rest, p.pending = id :: rest ∧ plan.visit id { p with pending := rest } = v := by
  unfold next?
  cases hPending : p.pending with
  | nil => simp
  | cons id rest =>
      simp only [Option.some.injEq]
      constructor
      · intro hVisit
        exact ⟨id, rest, rfl, hVisit⟩
      · rintro ⟨_, _, ⟨⟩, hVisit⟩
        exact hVisit

/-- What a walk comes by on its way: its start, and what a visit goes on with. -/
inductive Reaches (plan : Plan σ) (start : Progress σ) : Progress σ → Prop where
  | refl : Reaches plan start start
  | step {p q : Progress σ} (hPrior : Reaches plan start p)
      (hLast : plan.next? p = some (.goesOn q)) : Reaches plan start q

/-- A walk that begins with one more visit reaches no less. -/
theorem Reaches.head {plan : Plan σ} {p q last : Progress σ}
    (hFirst : plan.next? p = some (.goesOn q)) (hRest : plan.Reaches q last) :
    plan.Reaches p last := by
  induction hRest with
  | refl => exact .step .refl hFirst
  | step _ hLast ih => exact .step ih hLast

/-- Where nothing waits, a walk is at its end. -/
theorem Reaches.eq_of_pending_nil {plan : Plan σ} {start p : Progress σ}
    (h : plan.Reaches start p) (hNone : start.pending = []) : p = start := by
  induction h with
  | refl => rfl
  | step _ hLast ih =>
      rw [ih, next?_eq_none_iff.mpr hNone] at hLast
      cases hLast

/-- What every visit keeps is kept on the whole way. -/
theorem Reaches.preserves {plan : Plan σ} {start p : Progress σ} {inv : Progress σ → Prop}
    (hStart : inv start)
    (hVisit : ∀ p q, inv p → plan.next? p = some (.goesOn q) → inv q)
    (hReach : plan.Reaches start p) : inv p := by
  induction hReach with
  | refl => exact hStart
  | step _ hLast ih => exact hVisit _ _ ih hLast

/-- The same for what taking an item keeps, visit by visit. -/
theorem Reaches.keeps {plan : Plan σ} {start p : Progress σ} {inv : Progress σ → Prop}
    (hStart : inv start) (hItem : ∀ p rest, inv p → inv { p with pending := rest })
    (hVisit : ∀ id p, inv p → (plan.visit id p).parts.2 = .finished none →
      inv (plan.visit id p).parts.1)
    (hReach : plan.Reaches start p) : inv p := by
  refine hReach.preserves hStart ?_
  intro p q hPrior hNext
  obtain ⟨id, rest, -, hGoesOn⟩ := next?_eq_some_iff.mp hNext
  have hKept := hVisit id _ (hItem p rest hPrior)
  rw [hGoesOn] at hKept
  exact hKept rfl

/-- Something is reached after which a walk has the given end. -/
def Stops (plan : Plan σ) (last : Progress σ) : Progress σ × Ending → Prop
  | (p, .finished none) => plan.next? last = none ∧ p = last
  | (p, .finished (some error)) => plan.next? last = some (.ended p error)
  | (p, .brokenOff why) => plan.next? last = some (.brokenOff p why)

/-- A walk from one progress goes the way of the next one. -/
theorem walk_eq (plan : Plan σ) (p : Progress σ) :
    plan.walk p = match plan.next? p with
      | none => (p, .finished none)
      | some (.goesOn q) => plan.walk q
      | some (.ended q error) => (q, .finished (some error))
      | some (.brokenOff q why) => (q, .brokenOff why) := by
  rw [walk.eq_def]
  unfold next?
  cases hp : p.pending with
  | nil => simp
  | cons id rest =>
      simp only
      cases hv : plan.visit id { p with pending := rest } <;> simp

theorem walk_of_nil {plan : Plan σ} {p : Progress σ} (hNone : p.pending = []) :
    plan.walk p = (p, .finished none) := by
  rw [walk_eq, next?, hNone]

/-- A walk over one step that is answered ends behind it, if the step is no router and no limit of
tokens is broken. -/
theorem walk_of_sole {plan : Plan σ} {p q : Progress σ} {id : String} {s : Step}
    {executor : Executor σ} {world : σ} {outcome : Except Fault StepResult}
    (hPending : p.pending = [id]) (hCleared : plan.Cleared id { p with pending := [] } s q)
    (hServed : plan.executors s.type = some executor)
    (hCall : plan.call executor s q = (outcome.mapError .fault, world))
    (hCheck : plan.budget.checkAfter (plan.settled s q world (resultOf outcome)).ledger = .ok none)
    (hType : s.type ≠ Flow.routerType) :
    ∃ error, plan.walk p = (plan.settled s q world (resultOf outcome), .finished error) := by
  have hNone : (plan.settled s q world (resultOf outcome)).pending = [] := by
    rw [checkTime_eq hCleared.timely]
    rfl
  have hTarget : plan.chosenTarget s (resultOf outcome) = .ok none := by
    simp [chosenTarget, hType]
  rw [walk_eq, next?, hPending]
  simp only [visit_of_answered hCleared hServed hCall, afterResult, hCheck, hTarget, branched]
  unfold afterFailure
  cases (resultOf outcome).failed with
  | true =>
      cases plan.abortOnError with
      | true => exact ⟨_, rfl⟩
      | false => exact ⟨none, walk_of_nil hNone⟩
  | false => exact ⟨none, walk_of_nil hNone⟩

/-- Every walk stops at something that it reaches. -/
theorem walk_stops (plan : Plan σ) (p : Progress σ) :
    ∃ last, plan.Reaches p last ∧ plan.Stops last (plan.walk p) := by
  fun_induction walk plan p with
  | case1 p hp => exact ⟨p, .refl, by simp [Stops, next?, hp]⟩
  | case2 p id rest hp q hv ih =>
      obtain ⟨last, hReach, hStops⟩ := ih
      exact ⟨last, hReach.head (by simp [next?, hp, hv]), hStops⟩
  | case3 p id rest hp q error hv => exact ⟨p, .refl, by simp [Stops, next?, hp, hv]⟩
  | case4 p id rest hp q why hv => exact ⟨p, .refl, by simp [Stops, next?, hp, hv]⟩

/-- Where a walk stops, either nothing waits or the visit of the next item is its last. -/
theorem walk_eq_parts (plan : Plan σ) (start : Progress σ) :
    ∃ last, plan.Reaches start last ∧
      ((last.pending = [] ∧ plan.walk start = (last, .finished none)) ∨
        ∃ id rest, last.pending = id :: rest ∧
          plan.walk start = (plan.visit id { last with pending := rest }).parts ∧
          (plan.walk start).2 ≠ .finished none) := by
  obtain ⟨last, hReach, hStops⟩ := walk_stops plan start
  refine ⟨last, hReach, ?_⟩
  rcases hWalk : plan.walk start with ⟨p, (_ | error) | why⟩
  · rw [hWalk] at hStops
    obtain ⟨hNone, rfl⟩ := hStops
    exact .inl ⟨next?_eq_none_iff.mp hNone, rfl⟩
  all_goals
    rw [hWalk] at hStops
    obtain ⟨id, rest, hPending, hVisit⟩ := next?_eq_some_iff.mp hStops
    refine .inr ⟨id, rest, hPending, ?_, nofun⟩
    rw [hVisit]
    rfl

/-- What every visit keeps holds at the end of a walk, whichever end it is. -/
theorem walk_preserves {plan : Plan σ} {start : Progress σ} (inv : Progress σ → Ending → Prop)
    (hStart : inv start (.finished none))
    (hVisit : ∀ p id rest, inv p (.finished none) → p.pending = id :: rest →
      inv (plan.visit id { p with pending := rest }).parts.1
        (plan.visit id { p with pending := rest }).parts.2) :
    inv (plan.walk start).1 (plan.walk start).2 := by
  have hNext : ∀ p v, inv p (.finished none) → plan.next? p = some v →
      inv v.parts.1 v.parts.2 := by
    intro p v hPrior hNext
    obtain ⟨id, rest, hPending, rfl⟩ := next?_eq_some_iff.mp hNext
    exact hVisit p id rest hPrior hPending
  obtain ⟨last, hReach, hStops⟩ := walk_stops plan start
  have hLast : inv last (.finished none) :=
    Reaches.preserves hStart (fun p q hPrior hGoesOn => hNext p (.goesOn q) hPrior hGoesOn) hReach
  rcases hWalk : plan.walk start with ⟨q, (_ | error) | why⟩
  · rw [hWalk] at hStops
    obtain ⟨-, rfl⟩ := hStops
    exact hLast
  · rw [hWalk] at hStops
    exact hNext last (.ended q error) hLast hStops
  · rw [hWalk] at hStops
    exact hNext last (.brokenOff q why) hLast hStops

/-- A walk ends as it does from anything that it reaches. -/
theorem Reaches.walk_eq {plan : Plan σ} {start p : Progress σ} (h : plan.Reaches start p) :
    plan.walk start = plan.walk p := by
  induction h with
  | refl => rfl
  | step _ hLast ih => rw [ih, Plan.walk_eq, hLast]

end Plan

/-- Whether the end of a run can be told: the closing line of a failure tells the tokens in total. -/
def Progress.isTold (p : Progress σ) (error : Option String) : Bool :=
  error.isNone || (Value.int p.ledger.usage.total).isWritable

/-- A success is always told. -/
theorem Progress.isTold_none (p : Progress σ) : p.isTold none = true := rfl

theorem Progress.isTold_of_writable {p : Progress σ} (error : Option String)
    (hTotal : (Value.int p.ledger.usage.total).isWritable = true) : p.isTold error = true := by
  unfold isTold
  rw [hTotal]
  exact Bool.or_true _

theorem Progress.isTold_eq_false_iff {p : Progress σ} {error : Option String} :
    p.isTold error = false ↔ (∃ message, error = some message) ∧
      (Value.int p.ledger.usage.total).isWritable = false := by
  unfold isTold
  cases error <;> simp

namespace Engine

/-- The plan of a run and the progress that it begins with. Both are fixed by two readings of the
clock. -/
def opening (e : Engine σ) (job : Job) (world : σ) : Plan σ × Progress σ :=
  let (startedAt, world) := e.host.seconds.run (e.host.seconds.run world).2
  (job.plan e startedAt, job.begin e.host.accountId world)

/-- The end of a run as its outcome. The clock is read once more for the duration, and a result that
the log cannot be closed with is lost. -/
def outcomeOf (e : Engine σ) (job : Job) (began : Float) :
    Progress σ × Plan.Ending → Except Halt RunResult
  | (_, .brokenOff why) => .error why
  | (p, .finished error) =>
    if p.isTold error then .ok (job.result p error (msBetween began (e.host.seconds.run p.world).1))
    else .error (.fault .integerTooLong)

theorem outcomeOf_of_told {e : Engine σ} {job : Job} {p : Progress σ} {error : Option String}
    (h : p.isTold error = true) (began : Float) : e.outcomeOf job began (p, .finished error) =
      .ok (job.result p error (msBetween began (e.host.seconds.run p.world).1)) :=
  if_pos h

theorem outcomeOf_of_untold {e : Engine σ} {job : Job} {p : Progress σ} {error : Option String}
    (h : p.isTold error = false) (began : Float) :
    e.outcomeOf job began (p, .finished error) = .error (.fault .integerTooLong) :=
  if_neg (Bool.eq_false_iff.mp h)

/-- What has a result is an end that can be told. -/
theorem told_of_outcomeOf {e : Engine σ} {job : Job} {began : Float}
    {last : Progress σ × Plan.Ending} {r : RunResult} (h : e.outcomeOf job began last = .ok r) :
    ∃ error, last.2 = .finished error ∧ last.1.isTold error = true ∧
      r = job.result last.1 error (msBetween began (e.host.seconds.run last.1.world).1) := by
  rcases last with ⟨p, error | why⟩
  · unfold outcomeOf at h
    simp only at h
    split at h
    · rename_i hTold
      exact ⟨error, rfl, hTold, (Except.ok.inj h).symm⟩
    · cases h
  · cases h

/-- What has no result is broken off or cannot be told. -/
theorem outcomeOf_eq_error_iff {e : Engine σ} {job : Job} {began : Float}
    {last : Progress σ × Plan.Ending} {why : Halt} : e.outcomeOf job began last = .error why ↔
      last.2 = .brokenOff why ∨ .fault .integerTooLong = why ∧
        ∃ error, last.2 = .finished error ∧ last.1.isTold error = false := by
  rcases last with ⟨p, error | why'⟩
  · cases hTold : p.isTold error <;> simp [outcomeOf, hTold]
  · simp [outcomeOf]

/-- The log is closed, and the result kept, exactly when the end can be told. -/
theorem outcome_close (job : Job) (p : Progress σ) (error : Option String) (ms : Float) :
    (close p (job.result p error ms)).outcome =
      if p.isTold error then .ok (job.result p error ms) else .error (.fault .integerTooLong) := by
  have hSuccess : (job.result p error ms).success = error.isNone := rfl
  have hTotal : (job.result p error ms).usage.total = p.ledger.usage.total := rfl
  unfold close Progress.isTold
  rw [hSuccess, hTotal]
  cases error with
  | none => rfl
  | some message =>
      simp only [Option.isNone_some, Bool.false_eq_true, if_false, Bool.false_or, Value.display]
      cases (Value.int p.ledger.usage.total).isWritable <;> rfl

/-- A run of a flow without steps is over at once. -/
theorem outcome_run_of_no_steps (e : Engine σ) {job : Job} (world : σ)
    (hSteps : job.flow.steps = []) :
    ∃ ms, (e.run job world).1.outcome = .ok (.empty ms job.agentId job.flowName) := by
  have hNone : job.flow.steps.isEmpty = true := by simp [hSteps]
  unfold run
  simp only [hNone, if_true]
  exact ⟨_, rfl⟩

/-- A run of a flow with steps is a walk from its opening. -/
theorem outcome_run {e : Engine σ} {job : Job} {world : σ} (hSteps : job.flow.steps ≠ []) :
    (e.run job world).1.outcome =
      e.outcomeOf job (e.host.seconds.run world).1
        ((e.opening job world).1.walk (e.opening job world).2) := by
  have hSome : job.flow.steps.isEmpty = false := by simpa using hSteps
  unfold run
  cases hBegan : e.host.seconds.run world with
  | mk began w =>
      simp only [hSome, Bool.false_eq_true, if_false]
      unfold runSteps opening
      rw [hBegan]
      cases e.host.seconds.run w with
      | mk startedAt w =>
          simp only
          rcases (job.plan e startedAt).walk (job.begin e.host.accountId w) with
            ⟨p, error | why⟩
          · exact outcome_close job _ error _
          · rfl

end Engine

end StepFlow
