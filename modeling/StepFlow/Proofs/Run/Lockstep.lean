import StepFlow.Proofs.Run.Failure

/-! Two runs in lockstep. The worlds of the two may differ, as long as clocks and executors answer
alike in related worlds and leave related worlds. Then visits come out alike, unless a limit that
only the first run has ends it there: its cap of steps, or its end on errors. -/
namespace StepFlow

variable {σ τ α : Type} {R : σ → τ → Prop}

/-- Computations that answer alike in related worlds and leave related worlds. -/
def InStep (R : σ → τ → Prop) (f : σ → α × σ) (g : τ → α × τ) : Prop :=
  ∀ w v, R w v → (f w).1 = (g v).1 ∧ R (f w).2 (g v).2

def Executor.InStep (R : σ → τ → Prop) (x : Executor σ) (y : Executor τ) : Prop :=
  ∀ s l b, StepFlow.InStep R (x s l b).perform (y s l b).perform

theorem InStep.attempt {act : Act σ α} {act' : Act τ α} (h : InStep R act.perform act'.perform) :
    InStep R (Act.attempt act).perform (Act.attempt act').perform := by
  intro w v hWorld
  obtain ⟨hAnswer, hAfter⟩ := h w v hWorld
  unfold Act.perform Act.attempt Act.perform
  unfold Act.perform at hAnswer hAfter
  simp only [ExceptT.run] at hAnswer hAfter ⊢
  rcases hLeft : act w with ⟨outcome, w'⟩
  rcases hRight : act' v with ⟨outcome', v'⟩
  rw [hLeft, hRight] at hAnswer hAfter
  obtain rfl : outcome = outcome' := hAnswer
  rcases outcome with (f | _) | a
  · exact ⟨rfl, hAfter⟩
  · exact ⟨rfl, hAfter⟩
  · exact ⟨rfl, hAfter⟩

/-- Progresses in related worlds that agree in all but their events. -/
structure Progress.Alike (R : σ → τ → Prop) (p : Progress σ) (q : Progress τ) : Prop where
  world : R p.world q.world
  ledger : p.ledger = q.ledger
  pending : p.pending = q.pending
  traces : p.traces = q.traces
  lastOutput : p.lastOutput = q.lastOutput
  executed : p.executed = q.executed

namespace Progress.Alike

variable {p : Progress σ} {q : Progress τ}

/-- The end of one of them can be told when that of the other can. -/
theorem isTold_eq (h : p.Alike R q) (error : Option String) : p.isTold error = q.isTold error := by
  unfold Progress.isTold
  rw [h.ledger]

theorem withEvent (h : p.Alike R q) (e e' : Log.Event) : (p.withEvent e).Alike R (q.withEvent e') :=
  ⟨h.world, h.ledger, h.pending, h.traces, h.lastOutput, h.executed⟩

theorem queued (h : p.Alike R q) {waiting waiting' : List String} (hSame : waiting = waiting') :
    Alike R { p with pending := waiting } { q with pending := waiting' } :=
  ⟨h.world, h.ledger, hSame, h.traces, h.lastOutput, h.executed⟩

theorem moved (h : p.Alike R q) {w : σ} {v : τ} (hWorld : R w v) :
    Alike R { p with world := w } { q with world := v } :=
  ⟨hWorld, h.ledger, h.pending, h.traces, h.lastOutput, h.executed⟩

theorem read (h : p.Alike R q) {clock : StateM σ Float} {clock' : StateM τ Float}
    (hClock : InStep R clock.run clock'.run) :
    (p.read clock).1 = (q.read clock').1 ∧ (p.read clock).2.Alike R (q.read clock').2 := by
  obtain ⟨hTime, hWorld⟩ := hClock p.world q.world h.world
  exact ⟨hTime, h.moved hWorld⟩

theorem withInstant (h : p.Alike R q) {host : Host σ} {host' : Host τ}
    (hStamp : InStep R host.stamp.run host'.stamp.run) (id type : String) (status : Status)
    (error : Option String) (metadata : Value) :
    (p.withInstant host id type status error metadata).Alike R
      (q.withInstant host' id type status error metadata) := by
  obtain ⟨hTime, hAfter⟩ := h.read hStamp
  refine ⟨hAfter.world, h.ledger, h.pending, ?_, h.lastOutput, h.executed⟩
  rw [withInstant_traces, withInstant_traces, h.traces]
  exact congrArg (fun now => q.traces ++ [Trace.instant id type status now error metadata]) hTime

end Progress.Alike

namespace Plan

/-- Two plans of one flow and one budget whose clocks and executors are in step. The limits of the
first are no looser. -/
structure Follows (R : σ → τ → Prop) (tight : Plan σ) (loose : Plan τ) : Prop where
  flow : tight.flow = loose.flow
  budget : tight.budget = loose.budget
  seconds : InStep R tight.host.seconds.run loose.host.seconds.run
  stamp : InStep R tight.host.stamp.run loose.host.stamp.run
  executors : ∀ type, Option.Rel (Executor.InStep R) (tight.executors type) (loose.executors type)
  cap : tight.maxSteps ≤ loose.maxSteps
  abort : loose.abortOnError = true → tight.abortOnError = true

/-- What the same visit comes to under two plans: the same, unless errors end the first run only. -/
inductive Abreast (R : σ → τ → Prop) (tight : Plan σ) (loose : Plan τ) :
    Visited σ → Visited τ → Prop where
  | goesOn {p : Progress σ} {q : Progress τ} (hAlike : p.Alike R q) :
      Abreast R tight loose (.goesOn p) (.goesOn q)
  | ended {p : Progress σ} {q : Progress τ} {error : String} (hAlike : p.Alike R q) :
      Abreast R tight loose (.ended p error) (.ended q error)
  | brokenOff {p : Progress σ} {q : Progress τ} {why : Halt} (hAlike : p.Alike R q) :
      Abreast R tight loose (.brokenOff p why) (.brokenOff q why)
  | aborted {p : Progress σ} {q : Progress τ} {error : String} (hAlike : p.Alike R q)
      (hEnds : tight.abortOnError = true) (hGoing : loose.abortOnError = false) :
      Abreast R tight loose (.ended p error) (.goesOn q)

variable {tight : Plan σ} {loose : Plan τ} {p : Progress σ} {q : Progress τ}

namespace Follows

theorem afterFailure (h : Follows R tight loose) (hAlike : p.Alike R q) (error : String) :
    Abreast R tight loose (tight.afterFailure p error) (loose.afterFailure q error) := by
  unfold Plan.afterFailure
  cases hTight : tight.abortOnError with
  | true =>
      cases hLoose : loose.abortOnError with
      | true => exact .ended hAlike
      | false => exact .aborted hAlike hTight hLoose
  | false =>
      have hLoose : loose.abortOnError = false := by
        rw [← Bool.not_eq_true]
        intro hAbort
        rw [h.abort hAbort] at hTight
        cases hTight
      rw [hLoose]
      exact .goesOn hAlike

theorem withFailure (h : Follows R tight loose) (hAlike : p.Alike R q) (id type error : String) :
    (p.withFailure tight.host id type error).Alike R (q.withFailure loose.host id type error) :=
  (hAlike.withInstant h.stamp ..).withEvent _ _

theorem withViolation (h : Follows R tight loose) (hAlike : p.Alike R q) (s : Step)
    (v : Violation) :
    (p.withViolation tight.host s v).Alike R (q.withViolation loose.host s v) :=
  (hAlike.withInstant h.stamp ..).withEvent _ _

theorem branched (h : Follows R tight loose) (hAlike : p.Alike R q) (s : Step)
    (target : Option String) : (tight.branched s p target).Alike R (loose.branched s q target) := by
  cases target with
  | none => exact hAlike
  | some id =>
      refine (hAlike.queued ?_).withEvent _ _
      unfold branchFrom
      rw [h.flow, hAlike.ledger, hAlike.pending]

theorem chosenTarget (h : Follows R tight loose) (s : Step) (r : StepResult) :
    tight.chosenTarget s r = loose.chosenTarget s r := by
  unfold Plan.chosenTarget
  rw [h.flow]

theorem afterResult (h : Follows R tight loose) (hAlike : p.Alike R q) (s : Step)
    (r : StepResult) :
    Abreast R tight loose (tight.afterResult s r p) (loose.afterResult s r q) := by
  unfold Plan.afterResult
  rw [h.budget, hAlike.ledger, h.chosenTarget]
  rcases loose.budget.checkAfter q.ledger with f | _ | v
  · exact .brokenOff hAlike
  · rcases loose.chosenTarget s r with f | target
    · exact .brokenOff hAlike
    · simp only
      split
      · exact h.afterFailure (h.branched hAlike s target) _
      · exact .goesOn (h.branched hAlike s target)
  · exact .ended (h.withViolation hAlike s v)

theorem conclude (h : Follows R tight loose) (hAlike : p.Alike R q) (s : Step) (started : Float)
    (r : StepResult) :
    Abreast R tight loose (tight.conclude s started r p) (loose.conclude s started r q) := by
  obtain ⟨hTime, hAfter⟩ := hAlike.read h.stamp
  unfold Plan.conclude
  simp only [hTime]
  unfold recorded
  rw [hAfter.ledger]
  cases (q.read loose.host.stamp).2.ledger.write?
      (entryOf s started (q.read loose.host.stamp).1 r) with
  | none => exact .brokenOff hAfter
  | some ledger =>
      refine h.afterResult ?_ s r
      refine ⟨hAfter.world, rfl, hAfter.pending, ?_, ?_, ?_⟩
      · simp only [hAfter.traces]
      · simp only [hAfter.lastOutput]
      · simp only [hAfter.executed]

theorem execute (h : Follows R tight loose) (hAlike : p.Alike R q) (s : Step) {x : Executor σ}
    {y : Executor τ} (hServed : Executor.InStep R x y) :
    Abreast R tight loose (tight.execute x s p) (loose.execute y s q) := by
  obtain ⟨hTime, hAfter⟩ := hAlike.read h.stamp
  have hCall : InStep R
      (Act.attempt (x s (p.read tight.host.stamp).2.ledger tight.budget)).perform
      (Act.attempt (y s (q.read loose.host.stamp).2.ledger loose.budget)).perform := by
    rw [hAfter.ledger, h.budget]
    exact (hServed _ _ _).attempt
  obtain ⟨hAnswer, hWorld⟩ := hCall _ _ hAfter.world
  unfold Plan.execute
  simp only [hTime]
  revert hAnswer hWorld
  generalize (Act.attempt (x s (p.read tight.host.stamp).2.ledger tight.budget)).perform
    (p.read tight.host.stamp).2.world = called
  generalize (Act.attempt (y s (q.read loose.host.stamp).2.ledger loose.budget)).perform
    (q.read loose.host.stamp).2.world = called'
  rcases called with ⟨outcome, w⟩
  rcases called' with ⟨outcome', v⟩
  intro hAnswer hWorld
  obtain rfl : outcome = outcome' := hAnswer
  cases outcome with
  | error why => exact .brokenOff (hAfter.moved hWorld)
  | ok outcome => exact h.conclude (hAfter.moved hWorld) s _ _

theorem dispatch (h : Follows R tight loose) (hAlike : p.Alike R q) (s : Step) :
    Abreast R tight loose (tight.dispatch s p) (loose.dispatch s q) := by
  have hServed := h.executors s.type
  unfold Plan.dispatch
  cases hTight : tight.executors s.type <;> cases hLoose : loose.executors s.type <;>
    rw [hTight, hLoose] at hServed
  · exact h.afterFailure (h.withFailure hAlike ..) _
  · cases hServed
  · cases hServed
  · cases hServed with
    | some hServed => exact h.execute hAlike s hServed

theorem visitConditioned (h : Follows R tight loose) (hAlike : p.Alike R q) (s : Step) :
    Abreast R tight loose (tight.visitConditioned s p) (loose.visitConditioned s q) := by
  unfold Plan.visitConditioned
  cases s.condition with
  | none => exact h.dispatch hAlike s
  | some c =>
      simp only
      split
      · exact h.dispatch hAlike s
      · rw [hAlike.ledger]
        rcases Expr.condition c q.ledger.context with ⟨f | _ | _, diagnostics⟩
        · exact .brokenOff hAlike
        · exact .goesOn ((hAlike.withInstant h.stamp ..).withEvent _ _)
        · exact h.dispatch hAlike s

theorem checkTime (h : Follows R tight loose) (hAlike : p.Alike R q) :
    (tight.checkTime p).1 = (loose.checkTime q).1 ∧
      (tight.checkTime p).2.Alike R (loose.checkTime q).2 := by
  obtain ⟨hTime, hAfter⟩ := hAlike.read h.seconds
  unfold Plan.checkTime
  rw [h.budget]
  split
  · exact ⟨rfl, hAlike⟩
  · exact ⟨congrArg loose.budget.checkTime hTime, hAfter⟩

theorem visitStep (h : Follows R tight loose) (hAlike : p.Alike R q) (s : Step) :
    Abreast R tight loose (tight.visitStep s p) (loose.visitStep s q) := by
  obtain ⟨hTime, hAfter⟩ := h.checkTime hAlike
  unfold Plan.visitStep
  rw [hAlike.ledger]
  split
  · exact .goesOn (hAlike.withInstant h.stamp ..)
  · revert hTime hAfter
    rcases tight.checkTime p with ⟨timely, p'⟩
    rcases loose.checkTime q with ⟨timely', q'⟩
    intro hTime hAfter
    obtain rfl : timely = timely' := hTime
    rcases timely with f | _ | v
    · exact .brokenOff hAfter
    · exact h.visitConditioned hAfter s
    · exact .ended (h.withViolation hAfter s v)

/-- Plans with the same cap stop at it alike. -/
theorem stopAtCap (hAlike : p.Alike R q) (hSame : tight.maxSteps = loose.maxSteps) :
    Abreast R tight loose (tight.stopAtCap p) (loose.stopAtCap q) := by
  unfold Plan.stopAtCap
  rw [hSame]
  cases (Value.int loose.maxSteps).display with
  | ok cap => exact .ended hAlike
  | error f => exact .brokenOff hAlike

/-- Visits come out alike, as long as no cap of the first plan alone is in the way. -/
theorem visit (h : Follows R tight loose) (hAlike : p.Alike R q) (id : String)
    (hCap : p.executed < tight.maxSteps ∨ tight.maxSteps = loose.maxSteps) :
    Abreast R tight loose (tight.visit id p) (loose.visit id q) := by
  have hBoth : tight.maxSteps ≤ p.executed ↔ loose.maxSteps ≤ q.executed := by
    have hLess := h.cap
    rw [hAlike.executed] at hCap ⊢
    omega
  unfold Plan.visit
  by_cases hReached : tight.maxSteps ≤ p.executed
  · have hSame : tight.maxSteps = loose.maxSteps := by omega
    rw [if_pos hReached, if_pos (hBoth.mp hReached)]
    exact stopAtCap hAlike hSame
  · rw [if_neg hReached, if_neg (mt hBoth.mpr hReached), h.flow]
    cases loose.flow.step? id with
    | none => exact h.afterFailure (h.withFailure hAlike ..) _
    | some s => exact h.visitStep hAlike s

end Follows

/-- The point where only the first of two walks ends: an item waits at its cap, or errors end it. -/
inductive Parted (R : σ → τ → Prop) (tight : Plan σ) (loose : Plan τ) (start : Progress σ)
    (start' : Progress τ) : Prop where
  | capped {p : Progress σ} {q : Progress τ} (hTight : tight.Reaches start p)
      (hLoose : loose.Reaches start' q) (hAlike : p.Alike R q) (hCap : tight.maxSteps ≤ p.executed)
      (hWaits : p.pending ≠ []) (hLess : tight.maxSteps < loose.maxSteps) :
      Parted R tight loose start start'
  | aborted {p last : Progress σ} {q : Progress τ} {error : String} (hTight : tight.Reaches start p)
      (hLast : tight.next? p = some (.ended last error)) (hLoose : loose.Reaches start' q)
      (hAlike : last.Alike R q) (hEnds : tight.abortOnError = true)
      (hGoing : loose.abortOnError = false) : Parted R tight loose start start'

namespace Follows

variable {start : Progress σ} {start' : Progress τ}

/-- Where the one walk has an item to take, so has the other, and unless they part the visits come
out alike. -/
theorem next (h : Follows R tight loose) (hTight : tight.Reaches start p)
    (hLoose : loose.Reaches start' q) (hAlike : p.Alike R q) {v : Visited τ}
    (hNext : loose.next? q = some v) :
    (∃ u, tight.next? p = some u ∧ Abreast R tight loose u v) ∨
      Parted R tight loose start start' := by
  obtain ⟨id, rest, hPending, rfl⟩ := next?_eq_some_iff.mp hNext
  rw [← hAlike.pending] at hPending
  by_cases hCap : p.executed < tight.maxSteps ∨ tight.maxSteps = loose.maxSteps
  · exact .inl ⟨_, next?_eq_some_iff.mpr ⟨id, rest, hPending, rfl⟩,
      h.visit (hAlike.queued rfl) id hCap⟩
  · have hLess := h.cap
    refine .inr (.capped hTight hLoose hAlike (by omega) ?_ (by omega))
    rw [hPending]
    exact List.cons_ne_nil id rest

/-- The first walk keeps up with the second one until they part. -/
theorem reaches (h : Follows R tight loose) (hAlike : start.Alike R start')
    (hReach : loose.Reaches start' q) :
    (∃ p, tight.Reaches start p ∧ p.Alike R q) ∨ Parted R tight loose start start' := by
  induction hReach with
  | refl => exact .inl ⟨start, .refl, hAlike⟩
  | step hPrior hLast ih =>
      rcases ih with ⟨p, hTight, hAlike⟩ | hParted
      · rcases h.next hTight hPrior hAlike hLast with ⟨u, hNext, hAbreast⟩ | hParted
        · cases hAbreast with
          | goesOn hAfter => exact .inl ⟨_, hTight.step hNext, hAfter⟩
          | aborted hAfter hEnds hGoing =>
              exact .inr (.aborted hTight hNext (hPrior.step hLast) hAfter hEnds hGoing)
        · exact .inr hParted
      · exact .inr hParted

/-- Walks that do not part end alike. -/
theorem walk (h : Follows R tight loose) (hAlike : start.Alike R start') :
    ((tight.walk start).1.Alike R (loose.walk start').1 ∧
        (tight.walk start).2 = (loose.walk start').2) ∨ Parted R tight loose start start' := by
  obtain ⟨last, hReach, hStops⟩ := walk_stops loose start'
  rcases h.reaches hAlike hReach with ⟨p, hTight, hLast⟩ | hParted
  · rw [hTight.walk_eq, Plan.walk_eq]
    rcases hWalk : loose.walk start' with ⟨q, (_ | error) | why⟩
    · rw [hWalk] at hStops
      obtain ⟨hNone, rfl⟩ := hStops
      have hBoth : tight.next? p = none :=
        next?_eq_none_iff.mpr (hLast.pending.trans (next?_eq_none_iff.mp hNone))
      rw [hBoth]
      exact .inl ⟨hLast, rfl⟩
    · rw [hWalk] at hStops
      rcases h.next hTight hReach hLast hStops with ⟨u, hNext, hAbreast⟩ | hParted
      · rw [hNext]
        cases hAbreast with
        | ended hAfter => exact .inl ⟨hAfter, rfl⟩
      · exact .inr hParted
    · rw [hWalk] at hStops
      rcases h.next hTight hReach hLast hStops with ⟨u, hNext, hAbreast⟩ | hParted
      · rw [hNext]
        cases hAbreast with
        | brokenOff hAfter => exact .inl ⟨hAfter, rfl⟩
      · exact .inr hParted
  · exact .inr hParted

end Follows

/-- Under the same limits walks never part. -/
theorem Follows.walk_of_same {start : Progress σ} {start' : Progress τ}
    (h : Follows R tight loose) (hCap : tight.maxSteps = loose.maxSteps)
    (hAbort : tight.abortOnError = loose.abortOnError) (hAlike : start.Alike R start') :
    (tight.walk start).1.Alike R (loose.walk start').1 ∧
      (tight.walk start).2 = (loose.walk start').2 := by
  rcases h.walk hAlike with hSame | hParted
  · exact hSame
  · cases hParted with
    | capped _ _ _ _ _ hLess => exact absurd hCap (Int.ne_of_lt hLess)
    | aborted _ _ _ _ hEnds hGoing =>
        rw [hEnds, hGoing] at hAbort
        cases hAbort

/-- The tighter walk has ended where they part, with an error unless its cap cannot be told. -/
theorem Parted.walk {start : Progress σ} {start' : Progress τ}
    (h : Parted R tight loose start start') :
    ∃ (p : Progress σ) (q : Progress τ) (rest : List String),
      (tight.walk start).1 = { p with pending := rest } ∧
      ((∃ error, (tight.walk start).2 = .finished (some error)) ∨
        (Value.int tight.maxSteps).isWritable = false ∧
          (tight.walk start).2 = .brokenOff (.fault .integerTooLong)) ∧
      loose.Reaches start' q ∧ p.Alike R q := by
  cases h with
  | @capped p q hTight hLoose hAlike hCap hWaits =>
      obtain ⟨hAt, hEnd⟩ := tight.stopAtCap_parts { p with pending := p.pending.tail }
      rw [hTight.walk_of_capped hCap hWaits]
      exact ⟨p, q, _, hAt, hEnd.imp_left fun hTold => ⟨_, hTold⟩, hLoose, hAlike⟩
  | @aborted p last q error hTight hLast hLoose hAlike =>
      rw [hTight.walk_eq, Plan.walk_eq, hLast]
      exact ⟨last, q, last.pending, rfl, .inl ⟨error, rfl⟩, hLoose, hAlike⟩

end Plan

end StepFlow
