import Mathlib.Data.List.Basic
import StepFlow.Proofs.Run.Snag

/-! What comes out of an order when no call is cancelled. Whatever goes wrong with a step is told by
a trace of the result, but for the few snags outside of executors and the closing line of the log:
they come out as faults, and then there is no result. -/
namespace StepFlow

variable {σ : Type}

/-- Each call of an executor gives a result or fails with a fault. -/
def Engine.Answers (e : Engine σ) : Prop :=
  ∀ type executor, e.executors type = some executor →
    ∀ s l b world, ((executor s l b).perform world).1 ≠ .error .cancelled

namespace Plan

/-- What goes wrong with a step in a visit, and the trace that tells it: an id without a step, a
condition without a value, a type without an executor, a fault or an error of the executor, a limit
of time or of tokens that is broken. -/
inductive Mishap (plan : Plan σ) (id : String) (p : Progress σ) : Trace → Prop where
  | unknown (hBelow : p.executed < plan.maxSteps) (hStep : plan.flow.step? id = none) :
      Mishap plan id p (.instant id "unknown" .error (plan.host.stamp.run p.world).1
        (some ("Step \"" ++ id ++ "\" not found in flow definition")) .null)
  | unvalued {s : Step} {q : Progress σ} {c : String} {f : Fault} (hDue : plan.Due id p s)
      (hTime : plan.checkTime p = (.ok none, q)) (hCondition : s.condition = some c)
      (hText : c.isEmpty = false)
      (hFault : Expr.evaluate? (Expr.conditionBody c) q.ledger.context = .error f) :
      Mishap plan id p (.instant s.id s.type .skipped (plan.host.stamp.run q.world).1 none
        (.map [("condition", .text c), ("result", .bool false),
          ("diagnostics", .list [.text (Expr.Diagnostic.text ⟨Expr.conditionBody c, f⟩)])]))
  | unserved {s : Step} {q : Progress σ} (hCleared : plan.Cleared id p s q)
      (hNone : plan.executors s.type = none) :
      Mishap plan id p (.instant s.id s.type .error (plan.host.stamp.run q.world).1
        (some (unserved s)) .null)
  | raised {s : Step} {q : Progress σ} {executor : Executor σ} {world : σ} {f : Fault}
      (hCleared : plan.Cleared id p s q) (hServed : plan.executors s.type = some executor)
      (hCall : plan.call executor s q = (.error (.fault f), world)) :
      Mishap plan id p
        { traceOf s (plan.times q world).1 (plan.times q world).2 (resultOf (.error f)) with
          status := .error, error := some (f.messageOr "Executor threw an exception") }
  | failed {s : Step} {q : Progress σ} {executor : Executor σ} {world : σ} {r : StepResult}
      (hCleared : plan.Cleared id p s q) (hServed : plan.executors s.type = some executor)
      (hCall : plan.call executor s q = (.ok r, world)) (hFailed : r.failed = true) :
      Mishap plan id p
        { traceOf s (plan.times q world).1 (plan.times q world).2 r with
          status := .error, error := r.error }
  | late {s : Step} {v : Violation} {q : Progress σ} (hDue : plan.Due id p s)
      (hTime : plan.checkTime p = (.ok (some v), q)) :
      Mishap plan id p (.instant s.id s.type .scopeViolation (plan.host.stamp.run q.world).1
        (some v.message) (.map [("violationType", .text v.type.word)]))
  | exceeded {s : Step} {v : Violation} {q w : Progress σ} {executor : Executor σ} {world : σ}
      {outcome : Except Fault StepResult} (hCleared : plan.Cleared id p s q)
      (hServed : plan.executors s.type = some executor)
      (hCall : plan.call executor s q = (outcome.mapError .fault, world))
      (hWritten : w = plan.settled s q world (resultOf outcome))
      (hCheck : plan.budget.checkAfter w.ledger = .ok (some v)) :
      Mishap plan id p (.instant s.id s.type .scopeViolation (plan.host.stamp.run w.world).1
        (some v.message) (.map [("violationType", .text v.type.word)]))

/-- What follows on a result leaves the ledger as it is, and nothing but a violation is traced
behind the result. -/
theorem Settling.told {plan : Plan σ} {s : Step} {r : StepResult} {w : Progress σ} {v : Visited σ}
    (h : plan.Settling s r w v) : v.parts.1.ledger = w.ledger ∧
      ∃ told, v.parts.1.traces = w.traces ++ told ∧ ∀ t ∈ told, t.status = .scopeViolation := by
  have hBranched : ∀ target, (plan.branched s w target).ledger = w.ledger ∧
      (plan.branched s w target).traces = w.traces ++ [] := by
    intro target
    rw [List.append_nil]
    cases target <;> exact ⟨rfl, rfl⟩
  cases h with
  | uncounted => exact ⟨rfl, [], (List.append_nil _).symm, nofun⟩
  | exceeded => exact ⟨rfl, _, rfl, fun t hTold => by rw [List.mem_singleton.mp hTold]; rfl⟩
  | astray => exact ⟨rfl, [], (List.append_nil _).symm, nofun⟩
  | @aborted target => exact ⟨(hBranched target).1, [], (hBranched target).2, nofun⟩
  | @continued target => exact ⟨(hBranched target).1, [], (hBranched target).2, nofun⟩

/-- A visit takes no trace away. -/
theorem traces_prefix_afterResult (plan : Plan σ) (s : Step) (r : StepResult) (p : Progress σ) :
    p.traces <+: (plan.afterResult s r p).parts.1.traces := by
  obtain ⟨-, told, hTraces, -⟩ := (settling_afterResult plan s r p).told
  rw [hTraces]
  exact List.prefix_append _ _

theorem traces_prefix_afterFailure {plan : Plan σ} {p q : Progress σ} {error : String}
    (h : p.traces <+: q.traces) : p.traces <+: (plan.afterFailure q error).parts.1.traces := by
  unfold afterFailure
  split
  · exact h
  · exact h

theorem traces_prefix_visit (plan : Plan σ) (id : String) (p : Progress σ) :
    p.traces <+: (plan.visit id p).parts.1.traces := by
  have hTurn := turn_visit plan id p
  generalize plan.visit id p = v at hTurn
  have hRead : ∀ {q : Progress σ} {v : Except Fault (Option Violation)},
      plan.checkTime p = (v, q) → q.traces = p.traces := by
    intro q v hTime
    rw [checkTime_eq hTime]
  cases hTurn with
  | capped => exact List.prefix_rfl
  | untold => exact List.prefix_rfl
  | unknown => exact traces_prefix_afterFailure (List.prefix_append _ _)
  | again => exact List.prefix_append _ _
  | clockless _ hTime => exact hRead hTime ▸ List.prefix_rfl
  | late _ hTime => exact hRead hTime ▸ List.prefix_append _ _
  | undecided _ hTime => exact hRead hTime ▸ List.prefix_rfl
  | skipped _ hTime => exact hRead hTime ▸ List.prefix_append _ _
  | unserved hCleared =>
      exact traces_prefix_afterFailure (hRead hCleared.timely ▸ List.prefix_append _ _)
  | cancelled hCleared => exact hRead hCleared.timely ▸ List.prefix_rfl
  | answered hCleared =>
      refine List.IsPrefix.trans ?_ (traces_prefix_afterResult _ _ _ _)
      exact hRead hCleared.timely ▸ List.prefix_append _ _

theorem traces_prefix_walk (plan : Plan σ) (p : Progress σ) :
    p.traces <+: (plan.walk p).1.traces := by
  apply walk_preserves (fun q _ => p.traces <+: q.traces) List.prefix_rfl
  intro q id rest hPrior _
  exact hPrior.trans (traces_prefix_visit plan id { q with pending := rest })

/-- The traces after a visit on the way of a walk are among those at its end. -/
theorem traces_prefix_of_reaches {plan : Plan σ} {start p : Progress σ} {id : String}
    {rest : List String} (hReach : plan.Reaches start p) (hPending : p.pending = id :: rest) :
    (plan.visit id { p with pending := rest }).parts.1.traces <+: (plan.walk start).1.traces := by
  rw [hReach.walk_eq, walk_eq, next?, hPending]
  simp only
  cases plan.visit id { p with pending := rest } with
  | goesOn q => exact traces_prefix_walk plan q
  | ended q error => exact List.prefix_rfl
  | brokenOff q why => exact List.prefix_rfl

/-- The trace of an answered call is there after the visit. -/
theorem mem_traces_of_answered {plan : Plan σ} {id : String} {p q : Progress σ} {s : Step}
    {executor : Executor σ} {world : σ} {outcome : Except Fault StepResult}
    (hCleared : plan.Cleared id p s q) (hServed : plan.executors s.type = some executor)
    (hCall : plan.call executor s q = (outcome.mapError .fault, world)) :
    traceOf s (plan.times q world).1 (plan.times q world).2 (resultOf outcome) ∈
      (plan.visit id p).parts.1.traces := by
  rw [visit_of_answered hCleared hServed hCall]
  have hPrefix := traces_prefix_afterResult plan s (resultOf outcome)
    (plan.settled s q world (resultOf outcome))
  refine hPrefix.subset ?_
  change _ ∈ q.traces ++ [_]
  exact List.mem_append_right _ (List.mem_singleton.mpr rfl)

/-- A mishap leaves its trace in the visit. -/
theorem Mishap.mem_traces {plan : Plan σ} {id : String} {p : Progress σ} {t : Trace}
    (h : plan.Mishap id p t) : t ∈ (plan.visit id p).parts.1.traces := by
  have hFailure : ∀ (q : Progress σ) (id type error message : String),
      .instant id type .error (plan.host.stamp.run q.world).1 (some error) .null ∈
        (plan.afterFailure (q.withFailure plan.host id type error) message).parts.1.traces := by
    intro q id type error message
    refine (traces_prefix_afterFailure List.prefix_rfl).subset ?_
    simp
  cases h with
  | unknown hBelow hStep =>
      unfold visit
      rw [if_neg (by omega), hStep]
      exact hFailure _ _ _ _ _
  | @unvalued s q c f hDue hTime hCondition hText hFault =>
      have hSkipped : Expr.condition c q.ledger.context =
          (.ok false, [⟨Expr.conditionBody c, f⟩]) := by
        simp [Expr.condition, Expr.evaluate, hFault, Value.truth]
      rw [visit_of_condition hDue hTime hCondition hText, hSkipped]
      change _ ∈ q.traces ++ [_]
      exact List.mem_append_right _ (List.mem_singleton.mpr rfl)
  | unserved hCleared hNone =>
      rw [visit_of_cleared hCleared]
      unfold dispatch
      rw [hNone]
      exact hFailure _ _ _ _ _
  | @raised s q executor world f hCleared hServed hCall =>
      have hAnswer : plan.call executor s q =
          ((.error f : Except Fault StepResult).mapError .fault, world) := hCall
      have hTrace := mem_traces_of_answered hCleared hServed hAnswer
      obtain ⟨hFailed, hError⟩ := resultOf_error f
      simpa [traceOf, hFailed, hError] using hTrace
  | @failed s q executor world r hCleared hServed hCall hFailed =>
      have hAnswer : plan.call executor s q =
          ((.ok r : Except Fault StepResult).mapError .fault, world) := hCall
      have hTrace := mem_traces_of_answered hCleared hServed hAnswer
      simpa [traceOf, resultOf, hFailed] using hTrace
  | late hDue hTime =>
      rw [visit_of_due hDue, hTime]
      simp [Visited.parts]
  | exceeded hCleared hServed hCall hWritten hCheck =>
      subst hWritten
      rw [visit_of_answered hCleared hServed hCall]
      unfold afterResult
      rw [hCheck]
      simp [Visited.parts]

end Plan

namespace Engine

theorem outcome_execute {e : Engine σ} {order : Order} {job : Job} {m : Metrics} {world : σ}
    (hOrder : order.check e.settings = .ok job) :
    (e.execute order m world).1.outcome = (e.run job world).1.outcome.mapError .halted := by
  unfold execute
  rw [hOrder]
  simp only
  cases e.run job world with
  | mk report world => rfl

/-- Nothing waits in the queue of a flow without steps. -/
theorem pending_opening {e : Engine σ} {job : Job} {world : σ} (hSteps : job.flow.steps = []) :
    (e.opening job world).2.pending = [] := by
  change job.flow.initialQueue = []
  unfold Flow.initialQueue Flow.step? Flow.stepIds
  cases job.flow.entryPoint with
  | none => simp [hSteps]
  | some id => simp [hSteps]

/-- A run has no result when its walk is broken off or its end cannot be told. -/
theorem outcome_eq_error_iff {e : Engine σ} {job : Job} {world : σ} {why : Halt} :
    (e.run job world).1.outcome = .error why ↔
      (∃ q, (e.opening job world).1.walk (e.opening job world).2 = (q, .brokenOff why)) ∨
        .fault .integerTooLong = why ∧ ∃ q error,
          (e.opening job world).1.walk (e.opening job world).2 = (q, .finished error) ∧
            q.isTold error = false := by
  by_cases hSteps : job.flow.steps = []
  · obtain ⟨ms, hOutcome⟩ := outcome_run_of_no_steps e world hSteps
    rw [hOutcome, Plan.walk_of_nil (pending_opening hSteps)]
    simp [Progress.isTold_none]
  · rw [outcome_run hSteps, outcomeOf_eq_error_iff]
    rcases (e.opening job world).1.walk (e.opening job world).2 with ⟨p, ending⟩
    simp

/-- A run is cancelled when its walk is. -/
theorem outcome_eq_cancelled_iff {e : Engine σ} {job : Job} {world : σ} :
    (e.run job world).1.outcome = .error .cancelled ↔
      ∃ q, (e.opening job world).1.walk (e.opening job world).2 = (q, .brokenOff .cancelled) := by
  rw [outcome_eq_error_iff]
  simp

/-- The traces of a result are those that the walk has left. -/
theorem traces_of_outcome {e : Engine σ} {job : Job} {world : σ} {r : RunResult}
    {p : Progress σ} {id : String} {rest : List String} {t : Trace}
    (hOutcome : (e.run job world).1.outcome = .ok r)
    (hReach : (e.opening job world).1.Reaches (e.opening job world).2 p)
    (hPending : p.pending = id :: rest)
    (hMishap : (e.opening job world).1.Mishap id { p with pending := rest } t) : t ∈ r.traces := by
  have hEnd := (Plan.traces_prefix_of_reaches hReach hPending).subset hMishap.mem_traces
  by_cases hSteps : job.flow.steps = []
  · have hStart : (e.opening job world).2.pending = [] := pending_opening hSteps
    rw [hReach.eq_of_pending_nil hStart, hStart] at hPending
    cases hPending
  · rw [outcome_run hSteps] at hOutcome
    obtain ⟨error, -, -, rfl⟩ := told_of_outcomeOf hOutcome
    exact hEnd

/-- No run of an engine whose executors answer is cancelled. -/
theorem outcome_ne_cancelled {e : Engine σ} {job : Job} {world : σ} (hAnswers : e.Answers) :
    (e.run job world).1.outcome ≠ .error .cancelled := by
  intro hOutcome
  obtain ⟨q, hWalk⟩ := outcome_eq_cancelled_iff.mp hOutcome
  obtain ⟨_, _, _, -, -, hVisit⟩ := Plan.brokenOff_visit_of_walk hWalk
  obtain ⟨s, executor, r, w, hServed, hCall⟩ := Plan.cancelled_of_visit hVisit
  have hAnswer := hAnswers s.type executor hServed s r.ledger (e.opening job world).1.budget
    ((e.opening job world).1.host.stamp.run r.world).2
  apply hAnswer
  exact congrArg Prod.fst hCall

/-- What a run fails with, executors apart: a snag on its way, or its closing line, when a visit has
ended it with an error and the tokens in total are too long a count. -/
inductive Loses (e : Engine σ) (job : Job) (world : σ) : Fault → Prop where
  | snag {p : Progress σ} {id : String} {rest : List String} {f : Fault}
      (hReach : (e.opening job world).1.Reaches (e.opening job world).2 p)
      (hPending : p.pending = id :: rest)
      (hSnag : (e.opening job world).1.Snag id { p with pending := rest } f) : Loses e job world f
  | closing {p q : Progress σ} {id message : String} {rest : List String}
      (hReach : (e.opening job world).1.Reaches (e.opening job world).2 p)
      (hPending : p.pending = id :: rest)
      (hEnded : (e.opening job world).1.visit id { p with pending := rest } = .ended q message)
      (hLong : (Value.int q.ledger.usage.total).isWritable = false) :
      Loses e job world .integerTooLong

/-- A run fails with a fault exactly when its result is lost to it. -/
theorem outcome_eq_fault_iff {e : Engine σ} {job : Job} {world : σ} {f : Fault} :
    (e.run job world).1.outcome = .error (.fault f) ↔ e.Loses job world f := by
  rw [outcome_eq_error_iff, Plan.brokenOff_walk_iff]
  constructor
  · rintro (⟨p, id, rest, hReach, hPending, hSnag⟩ | ⟨hFault, q, error, hWalk, hUntold⟩)
    · exact .snag hReach hPending hSnag
    · obtain ⟨⟨message, rfl⟩, hLong⟩ := Progress.isTold_eq_false_iff.mp hUntold
      obtain ⟨p, id, rest, hReach, hPending, hEnded⟩ := Plan.ended_walk_iff.mp hWalk
      cases hFault
      exact .closing hReach hPending hEnded hLong
  · intro h
    cases h with
    | snag hReach hPending hSnag => exact .inl ⟨_, _, _, hReach, hPending, hSnag⟩
    | closing hReach hPending hEnded hLong =>
        exact .inr ⟨rfl, _, _, Plan.ended_walk_iff.mpr ⟨_, _, _, hReach, hPending, hEnded⟩,
          Progress.isTold_eq_false_iff.mpr ⟨⟨_, rfl⟩, hLong⟩⟩

/-- An order whose executors answer has a result, in which every mishap has its trace, unless a snag
or its closing line is in the way: then the fault comes out in its place. -/
theorem fault_escapes_iff_loses {e : Engine σ} {order : Order} {job : Job} (m : Metrics) (world : σ)
    (hOrder : order.check e.settings = .ok job) (hAnswers : e.Answers) :
    let (plan, start) := e.opening job world
    let outcome := (e.execute order m world).1.outcome
    (∀ f, outcome = .error (.halted (.fault f)) ↔ e.Loses job world f) ∧
    ((∃ f, outcome = .error (.halted (.fault f))) ∨
      ∃ r, outcome = .ok r ∧ ∀ p id rest t, plan.Reaches start p → p.pending = id :: rest →
        plan.Mishap id { p with pending := rest } t → t ∈ r.traces) := by
  have hOutcome : (e.execute order m world).1.outcome =
      (e.run job world).1.outcome.mapError .halted := outcome_execute hOrder
  have hEscape : ∀ f, (e.execute order m world).1.outcome = .error (.halted (.fault f)) ↔
      (e.run job world).1.outcome = .error (.fault f) := by
    intro f
    rw [hOutcome]
    cases (e.run job world).1.outcome with
    | ok r => simp [Except.mapError]
    | error why => simp [Except.mapError]
  refine ⟨?_, ?_⟩
  · intro f
    rw [hEscape]
    exact outcome_eq_fault_iff
  · cases hRun : (e.run job world).1.outcome with
    | ok r =>
        refine .inr ⟨r, ?_, ?_⟩
        · rw [hOutcome, hRun]
          rfl
        · intro p id rest t hReach hPending hMishap
          exact traces_of_outcome hRun hReach hPending hMishap
    | error why =>
        cases why with
        | fault f => exact .inl ⟨f, (hEscape f).mpr hRun⟩
        | cancelled => exact absurd hRun (outcome_ne_cancelled hAnswers)

def listBranch : StepResult := ⟨.null, none, none, .list [.null], .null⟩

/-- An engine whose one executor, that of routers, names a list as its branch. -/
def listRouting : Engine Unit :=
  { host :=
      { callModel := fun _ => Act.fail (.raised "")
        search := fun _ => Act.fail (.raised "")
        callTool := fun _ => Act.fail (.raised "")
        seconds := pure 0.0
        stamp := pure 0.0
        accountId := .null
        providerOrder := .null
        settings := .error (.raised "") }
    executors := fun type =>
      if type = Flow.routerType then some fun _ _ _ => pure listBranch else none
    settings := ⟨50, true, Settings.standardModel, .unlimited, "INFO", false, true⟩ }

/-- A run of one router, without limits. -/
def soleRouter : Job :=
  { flow := ⟨[⟨"route", Flow.routerType, [], none, none, .unset, []⟩], none⟩
    scopes := .unlimited
    trigger := ⟨"manual", none, none, none, none, none, none⟩
    agentId := none
    flowName := none
    abortOnError := true
    maxSteps := 50 }

def soleRouterOrder : Order :=
  { flow := .ready soleRouter.flow, scopes := some (.ready soleRouter.scopes)
    trigger := .ready soleRouter.trigger, agentId := none, flowName := none, abortOnError := none
    maxSteps := none }

theorem list_branch_escapes :
    soleRouterOrder.check listRouting.settings = .ok soleRouter ∧ listRouting.Answers ∧
      (listRouting.execute soleRouterOrder .empty ()).1.outcome =
        .error (.halted (.fault (.unhashable .list))) := by
  have hOrder : soleRouterOrder.check listRouting.settings = .ok soleRouter := rfl
  have hAnswers : listRouting.Answers := by
    intro type executor hServed s l b world
    change (if type = Flow.routerType then some _ else none) = some executor at hServed
    split at hServed
    · cases hServed
      exact nofun
    · cases hServed
  refine ⟨hOrder, hAnswers, ?_⟩
  apply ((fault_escapes_iff_loses .empty () hOrder hAnswers).1 (.unhashable .list)).mpr
  have hDue : (listRouting.opening soleRouter ()).1.Due "route"
      { (listRouting.opening soleRouter ()).2 with pending := [] }
      ⟨"route", Flow.routerType, [], none, none, .unset, []⟩ := ⟨by decide, rfl, rfl⟩
  have hCleared : (listRouting.opening soleRouter ()).1.Cleared "route" _ _ _ :=
    { hDue with timely := rfl, admitted := nofun }
  have hSnag : Plan.Snag _ "route" _ (.unhashable (Plan.resultOf (.ok listBranch)).nextBranch.kind) :=
    .branch hCleared rfl rfl rfl rfl rfl rfl
  exact .snag .refl rfl hSnag

end Engine

end StepFlow
