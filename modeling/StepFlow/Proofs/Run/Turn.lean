import StepFlow.Run.Loop

/-! Everything that one visit can do, said once. A turn is a visit seen from outside: what held
before it and what it came to. Later facts about runs are case analyses of turns and never open
the visit itself. -/
namespace StepFlow

variable {σ : Type}

namespace Act

variable {α : Type}

theorem perform_attempt_eq (act : Act σ α) (w : σ) :
    (attempt act).perform w = match act.perform w with
      | (.ok a, w) => (.ok (.ok a), w)
      | (.error (.fault f), w) => (.ok (.error f), w)
      | (.error .cancelled, w) => (.error .cancelled, w) := rfl

/-- Only a cancelled act gives no answer to one who asks for its faults as well. -/
theorem perform_attempt_error {act : Act σ α} {w w' : σ} {why : Halt}
    (h : (attempt act).perform w = (.error why, w')) :
    why = .cancelled ∧ act.perform w = (.error .cancelled, w') := by
  unfold perform attempt at h
  simp only [ExceptT.run] at h
  split at h
  · cases h
  · cases h
  · rename_i hp
    cases h
    exact ⟨rfl, hp⟩

/-- An answer to one who asks for faults as well is the answer of the act or its fault. -/
theorem perform_attempt_ok {act : Act σ α} {w w' : σ} {outcome : Except Fault α}
    (h : (attempt act).perform w = (.ok outcome, w')) :
    act.perform w = (outcome.mapError .fault, w') := by
  unfold perform attempt at h
  simp only [ExceptT.run] at h
  split at h
  · rename_i hp
    cases h
    exact hp
  · rename_i hp
    cases h
    exact hp
  · cases h

theorem perform_attempt {act : Act σ α} {w w' : σ} {outcome : Except Fault α}
    (h : act.perform w = (outcome.mapError .fault, w')) :
    (attempt act).perform w = (.ok outcome, w') := by
  rw [perform_attempt_eq, h]
  cases outcome <;> rfl

theorem perform_attempt_cancelled {act : Act σ α} {w w' : σ}
    (h : act.perform w = (.error .cancelled, w')) :
    (attempt act).perform w = (.error .cancelled, w') := by
  rw [perform_attempt_eq, h]

end Act

namespace StepResult

/-- A step has failed exactly when its error is not empty. -/
theorem failed_iff (r : StepResult) :
    r.failed = true ↔ ∃ message, r.error = some message ∧ message ≠ "" := by
  unfold failed
  cases r.error with
  | none => simp
  | some message => simp

theorem failed_failure {message : String} (hTold : message ≠ "") (output : Value) :
    (failure message output).failed = true :=
  (failed_iff _).mpr ⟨message, rfl, hTold⟩

end StepResult

theorem Fault.messageOr_ne_empty (f : Fault) {fallback : String} (hFallback : fallback ≠ "") :
    f.messageOr fallback ≠ "" := by
  unfold messageOr
  split
  · exact hFallback
  · rename_i hTold
    simpa [String.isEmpty_iff] using hTold

/-- A fault of an executor is never told by an empty message. -/
theorem Plan.resultOf_error (f : Fault) :
    (resultOf (.error f)).failed = true ∧
      (resultOf (.error f)).error = some (f.messageOr "Executor threw an exception") :=
  ⟨StepResult.failed_failure (f.messageOr_ne_empty (by simp)) _, rfl⟩

/-- The progress after a visit and the end that it brings about. A run that goes on could also end
without an error. -/
def Visited.parts : Visited σ → Progress σ × Plan.Ending
  | .goesOn p => (p, .finished none)
  | .ended p error => (p, .finished (some error))
  | .brokenOff p why => (p, .brokenOff why)

/-- A condition lets its step run when there is none, or when its text is true. -/
def Step.Admitted (s : Step) (context : Expr.Context) : Prop :=
  ∀ c, s.condition = some c → c.isEmpty = false → (Expr.condition c context).1 = .ok true

namespace Plan

/-- What holds of a step when its turn comes: the cap is not reached, and the step has not run. -/
structure Due (plan : Plan σ) (id : String) (p : Progress σ) (s : Step) : Prop where
  below : p.executed < plan.maxSteps
  step : plan.flow.step? id = some s
  fresh : p.ledger.has s.id = false

/-- What holds of a step when its executor is looked up. `q` is the progress after the clock has
been read. -/
structure Cleared (plan : Plan σ) (id : String) (p : Progress σ) (s : Step) (q : Progress σ) :
    Prop extends plan.Due id p s where
  timely : plan.checkTime p = (.ok none, q)
  admitted : s.Admitted q.ledger.context

/-- What the executor of a cleared step comes to, and the world after it. -/
def call (plan : Plan σ) (executor : Executor σ) (s : Step) (q : Progress σ) :
    Except Halt StepResult × σ :=
  (executor s q.ledger plan.budget).perform (plan.host.stamp.run q.world).2

/-- When the call of a cleared step began, and when it ended in a world. -/
def times (plan : Plan σ) (q : Progress σ) (world : σ) : Float × Float :=
  ((plan.host.stamp.run q.world).1, (plan.host.stamp.run world).1)

/-- The progress after an executor has answered in a world: one further entry, one further trace
and one further execution. -/
def settled (plan : Plan σ) (s : Step) (q : Progress σ) (world : σ) (r : StepResult) :
    Progress σ :=
  let (started, completed) := plan.times q world
  { q with
    world := (plan.host.stamp.run world).2
    ledger := { q.ledger with entries := q.ledger.entries ++ [entryOf s started completed r] }
    traces := q.traces ++ [traceOf s started completed r]
    lastOutput := if r.failed then q.lastOutput else r.output
    executed := q.executed + 1
    events := q.events ++ [eventOf s started completed r] }

/-- What a step without an executor is reported with. -/
def unserved (s : Step) : String := "No executor registered for type \"" ++ s.type ++ "\""

/-- The ways in which a visit can end, each with what held before it. -/
inductive Turn (plan : Plan σ) (id : String) (p : Progress σ) : Visited σ → Prop where
  | capped (hCap : plan.maxSteps ≤ p.executed)
      (hShort : (Value.int plan.maxSteps).isWritable = true) :
      Turn plan id p (.ended p ("Max steps limit reached (" ++ toString plan.maxSteps ++ ")"))
  | untold (hCap : plan.maxSteps ≤ p.executed)
      (hLong : (Value.int plan.maxSteps).isWritable = false) :
      Turn plan id p (.brokenOff p (.fault .integerTooLong))
  | unknown (hBelow : p.executed < plan.maxSteps) (hStep : plan.flow.step? id = none) :
      Turn plan id p (plan.visitUnknown id p)
  | again {s : Step} (hBelow : p.executed < plan.maxSteps) (hStep : plan.flow.step? id = some s)
      (hRan : p.ledger.has s.id = true) : Turn plan id p (plan.visitAgain s p)
  | clockless {s : Step} {f : Fault} {q : Progress σ} (hDue : plan.Due id p s)
      (hTime : plan.checkTime p = (.error f, q)) : Turn plan id p (.brokenOff q (.fault f))
  | late {s : Step} {v : Violation} {q : Progress σ} (hDue : plan.Due id p s)
      (hTime : plan.checkTime p = (.ok (some v), q)) :
      Turn plan id p (.ended (q.withViolation plan.host s v) v.message)
  | undecided {s : Step} {q : Progress σ} {c : String} {f : Fault} (hDue : plan.Due id p s)
      (hTime : plan.checkTime p = (.ok none, q)) (hCondition : s.condition = some c)
      (hText : c.isEmpty = false) (hTruth : (Expr.condition c q.ledger.context).1 = .error f) :
      Turn plan id p (.brokenOff q (.fault f))
  | skipped {s : Step} {q : Progress σ} {c : String} (hDue : plan.Due id p s)
      (hTime : plan.checkTime p = (.ok none, q)) (hCondition : s.condition = some c)
      (hText : c.isEmpty = false) (hTruth : (Expr.condition c q.ledger.context).1 = .ok false) :
      Turn plan id p (plan.visitSkipped s c (Expr.condition c q.ledger.context).2 q)
  | unserved {s : Step} {q : Progress σ} (hCleared : plan.Cleared id p s q)
      (hNone : plan.executors s.type = none) :
      Turn plan id p
        (plan.afterFailure (q.withFailure plan.host s.id s.type (unserved s)) (unserved s))
  | cancelled {s : Step} {q : Progress σ} {executor : Executor σ} {world : σ}
      (hCleared : plan.Cleared id p s q) (hServed : plan.executors s.type = some executor)
      (hCall : plan.call executor s q = (.error .cancelled, world)) :
      Turn plan id p (.brokenOff { q with world } .cancelled)
  | answered {s : Step} {q : Progress σ} {executor : Executor σ} {world : σ}
      {outcome : Except Fault StepResult} (hCleared : plan.Cleared id p s q)
      (hServed : plan.executors s.type = some executor)
      (hCall : plan.call executor s q = (outcome.mapError .fault, world)) :
      Turn plan id p
        (plan.afterResult s (resultOf outcome) (plan.settled s q world (resultOf outcome)))

/-- The ways in which a visit can end once its result is written. -/
inductive Settling (plan : Plan σ) (s : Step) (r : StepResult) (w : Progress σ) :
    Visited σ → Prop where
  | uncounted {f : Fault} (hCheck : plan.budget.checkAfter w.ledger = .error f) :
      Settling plan s r w (.brokenOff w (.fault f))
  | exceeded {v : Violation} (hCheck : plan.budget.checkAfter w.ledger = .ok (some v)) :
      Settling plan s r w (.ended (w.withViolation plan.host s v) v.message)
  | astray {f : Fault} (hCheck : plan.budget.checkAfter w.ledger = .ok none)
      (hTarget : plan.chosenTarget s r = .error f) :
      Settling plan s r w (.brokenOff w (.fault f))
  | aborted {target : Option String} (hCheck : plan.budget.checkAfter w.ledger = .ok none)
      (hTarget : plan.chosenTarget s r = .ok target) (hFailed : r.failed = true)
      (hAbort : plan.abortOnError = true) :
      Settling plan s r w (.ended (plan.branched s w target) (r.error.getD ""))
  | continued {target : Option String} (hCheck : plan.budget.checkAfter w.ledger = .ok none)
      (hTarget : plan.chosenTarget s r = .ok target)
      (hGoing : r.failed = false ∨ plan.abortOnError = false) :
      Settling plan s r w (.goesOn (plan.branched s w target))

/-- Reading the clock changes nothing but the world. -/
theorem checkTime_eq {plan : Plan σ} {p q : Progress σ} {v : Except Fault (Option Violation)}
    (h : plan.checkTime p = (v, q)) : q = { p with world := q.world } := by
  unfold checkTime at h
  split at h <;> cases h <;> rfl

/-- The ledger takes the result of a step that has not run. -/
theorem recorded_of_fresh {p : Progress σ} {s : Step} {started completed : Float} {r : StepResult}
    (hFresh : p.ledger.has s.id = false) :
    recorded p s started completed r = .ok { p with
      ledger := { p.ledger with entries := p.ledger.entries ++ [entryOf s started completed r] }
      traces := p.traces ++ [traceOf s started completed r]
      lastOutput := if r.failed then p.lastOutput else r.output
      executed := p.executed + 1
      events := p.events ++ [eventOf s started completed r] } := by
  simp [recorded, Ledger.write?, entryOf, hFresh]

/-- A cleared step has not run when its executor is looked up either. -/
theorem Cleared.fresh_after {plan : Plan σ} {id : String} {p q : Progress σ} {s : Step}
    (hCleared : plan.Cleared id p s q) : q.ledger.has s.id = false := by
  rw [checkTime_eq hCleared.timely]
  exact hCleared.fresh

theorem conclude_of_fresh {plan : Plan σ} {q : Progress σ} {s : Step} {world : σ} {r : StepResult}
    (hFresh : q.ledger.has s.id = false) :
    plan.conclude s (plan.times q world).1 r { q with world } =
      plan.afterResult s r (plan.settled s q world r) := by
  have hAfter : (Progress.read { q with world } plan.host.stamp).2.ledger.has s.id = false := hFresh
  unfold conclude
  simp only
  rw [recorded_of_fresh hAfter]
  rfl

theorem turn_execute {plan : Plan σ} {id : String} {p q : Progress σ} {s : Step}
    {executor : Executor σ} (hCleared : plan.Cleared id p s q)
    (hServed : plan.executors s.type = some executor) :
    plan.Turn id p (plan.execute executor s q) := by
  unfold execute
  simp only
  split
  · rename_i why world hCall
    obtain ⟨rfl, hCancelled⟩ := Act.perform_attempt_error hCall
    exact .cancelled (q := q) hCleared hServed hCancelled
  · rename_i outcome world hCall
    change plan.Turn id p (plan.conclude s (plan.times q world).1 (resultOf outcome) { q with world })
    rw [conclude_of_fresh hCleared.fresh_after]
    exact .answered hCleared hServed (Act.perform_attempt_ok hCall)

theorem turn_dispatch {plan : Plan σ} {id : String} {p q : Progress σ} {s : Step}
    (hCleared : plan.Cleared id p s q) : plan.Turn id p (plan.dispatch s q) := by
  unfold dispatch
  split
  · rename_i executor hServed
    exact turn_execute hCleared hServed
  · rename_i hNone
    exact .unserved hCleared hNone

theorem turn_visitConditioned {plan : Plan σ} {id : String} {p q : Progress σ} {s : Step}
    (hDue : plan.Due id p s) (hTime : plan.checkTime p = (.ok none, q)) :
    plan.Turn id p (plan.visitConditioned s q) := by
  unfold visitConditioned
  split
  · rename_i hCondition
    refine turn_dispatch { hDue with timely := hTime, admitted := ?_ }
    intro c hc
    rw [hCondition] at hc
    cases hc
  · rename_i c hCondition
    have hOnly : ∀ c', s.condition = some c' → c' = c := by
      intro c' hc
      rw [hCondition] at hc
      cases hc
      rfl
    split
    · rename_i hEmpty
      refine turn_dispatch { hDue with timely := hTime, admitted := ?_ }
      intro c' hc hText
      rw [hOnly c' hc, hEmpty] at hText
      cases hText
    · rename_i hEmpty
      have hText : c.isEmpty = false := by simpa using hEmpty
      split
      · rename_i f _ hTruth
        exact .undecided hDue hTime hCondition hText (by rw [hTruth])
      · rename_i hTruth
        refine turn_dispatch { hDue with timely := hTime, admitted := ?_ }
        intro c' hc _
        rw [hOnly c' hc, hTruth]
      · rename_i diagnostics hTruth
        have h := Turn.skipped hDue hTime hCondition hText (by rw [hTruth])
        rwa [hTruth] at h

theorem turn_stopAtCap {plan : Plan σ} {id : String} {p : Progress σ}
    (hCap : plan.maxSteps ≤ p.executed) : plan.Turn id p (plan.stopAtCap p) := by
  unfold stopAtCap
  rw [Value.display_int]
  cases hWritable : (Value.int plan.maxSteps).isWritable with
  | true => exact .capped hCap hWritable
  | false => exact .untold hCap hWritable

/-- A visit is one of the turns. -/
theorem turn_visit (plan : Plan σ) (id : String) (p : Progress σ) :
    plan.Turn id p (plan.visit id p) := by
  unfold visit
  split
  · rename_i hCap
    exact turn_stopAtCap hCap
  · rename_i hCap
    have hBelow : (p.executed : Int) < plan.maxSteps := by omega
    split
    · rename_i hStep
      exact .unknown hBelow hStep
    · rename_i s hStep
      unfold visitStep
      split
      · rename_i hRan
        exact .again hBelow hStep hRan
      · rename_i hRan
        have hDue : plan.Due id p s := ⟨hBelow, hStep, by simpa using hRan⟩
        split
        · rename_i hTime
          exact .clockless hDue hTime
        · rename_i hTime
          exact .late hDue hTime
        · rename_i hTime
          exact turn_visitConditioned hDue hTime

theorem settling_afterResult (plan : Plan σ) (s : Step) (r : StepResult) (w : Progress σ) :
    plan.Settling s r w (plan.afterResult s r w) := by
  unfold afterResult
  split
  · rename_i hCheck
    exact .uncounted hCheck
  · rename_i hCheck
    exact .exceeded hCheck
  · rename_i hCheck
    split
    · rename_i hTarget
      exact .astray hCheck hTarget
    · rename_i target hTarget
      simp only
      split
      · rename_i hFailed
        unfold afterFailure
        split
        · rename_i hAbort
          exact .aborted hCheck hTarget hFailed hAbort
        · rename_i hAbort
          exact .continued hCheck hTarget (.inr (by simpa using hAbort))
      · rename_i hFailed
        exact .continued hCheck hTarget (.inl (by simpa using hFailed))

/-- A due step is visited as the clock and its condition say. -/
theorem visit_of_due {plan : Plan σ} {id : String} {p : Progress σ} {s : Step}
    (hDue : plan.Due id p s) :
    plan.visit id p = match plan.checkTime p with
      | (.error f, p) => .brokenOff p (.fault f)
      | (.ok (some v), p) => .ended (p.withViolation plan.host s v) v.message
      | (.ok none, p) => plan.visitConditioned s p := by
  have hBelow := hDue.below
  have hFresh : ¬ p.ledger.has s.id = true := by simp [hDue.fresh]
  have hStep : plan.visit id p = plan.visitStep s p := by
    unfold visit
    rw [if_neg (by omega), hDue.step]
  rw [hStep]
  exact if_neg hFresh

/-- A step that is within its time is visited as its condition says. -/
theorem visit_of_condition {plan : Plan σ} {id : String} {p q : Progress σ} {s : Step} {c : String}
    (hDue : plan.Due id p s) (hTime : plan.checkTime p = (.ok none, q))
    (hCondition : s.condition = some c) (hText : c.isEmpty = false) :
    plan.visit id p = match Expr.condition c q.ledger.context with
      | (.error f, _) => .brokenOff q (.fault f)
      | (.ok true, _) => plan.dispatch s q
      | (.ok false, diagnostics) => plan.visitSkipped s c diagnostics q := by
  have hSome : ¬ c.isEmpty = true := by simp [hText]
  rw [visit_of_due hDue, hTime]
  simp only
  unfold visitConditioned
  rw [hCondition]
  exact if_neg hSome

theorem visit_of_cleared {plan : Plan σ} {id : String} {p q : Progress σ} {s : Step}
    (hCleared : plan.Cleared id p s q) : plan.visit id p = plan.dispatch s q := by
  rw [visit_of_due hCleared.toDue, hCleared.timely]
  simp only
  unfold visitConditioned
  cases hCondition : s.condition with
  | none => rfl
  | some c =>
      simp only
      cases hText : c.isEmpty with
      | true => simp
      | false =>
          have hTruth := hCleared.admitted c hCondition hText
          simp only [Bool.false_eq_true, if_false]
          rcases hValue : Expr.condition c q.ledger.context with ⟨truth, diagnostics⟩
          rw [hValue] at hTruth
          cases hTruth
          rfl

/-- A step whose executor answers is visited as its result says. -/
theorem visit_of_answered {plan : Plan σ} {id : String} {p q : Progress σ} {s : Step}
    {executor : Executor σ} {world : σ} {outcome : Except Fault StepResult}
    (hCleared : plan.Cleared id p s q) (hServed : plan.executors s.type = some executor)
    (hCall : plan.call executor s q = (outcome.mapError .fault, world)) :
    plan.visit id p =
      plan.afterResult s (resultOf outcome) (plan.settled s q world (resultOf outcome)) := by
  rw [visit_of_cleared hCleared, ← conclude_of_fresh hCleared.fresh_after]
  unfold dispatch
  rw [hServed]
  simp only
  unfold execute
  have hAttempt : (Act.attempt (executor s (q.read plan.host.stamp).2.ledger plan.budget)).perform
      (q.read plan.host.stamp).2.world = (.ok outcome, world) := Act.perform_attempt hCall
  simp only [hAttempt]
  rfl

/-- A step whose executor is cancelled breaks the run off where the executor has left the world. -/
theorem visit_of_cancelled {plan : Plan σ} {id : String} {p q : Progress σ} {s : Step}
    {executor : Executor σ} {world : σ} (hCleared : plan.Cleared id p s q)
    (hServed : plan.executors s.type = some executor)
    (hCall : plan.call executor s q = (.error .cancelled, world)) :
    plan.visit id p = .brokenOff { q with world } .cancelled := by
  rw [visit_of_cleared hCleared]
  unfold dispatch
  rw [hServed]
  simp only
  unfold execute
  have hAttempt : (Act.attempt (executor s (q.read plan.host.stamp).2.ledger plan.budget)).perform
      (q.read plan.host.stamp).2.world = (.error .cancelled, world) :=
    Act.perform_attempt_cancelled hCall
  simp only [hAttempt]
  rfl

end Plan

end StepFlow
