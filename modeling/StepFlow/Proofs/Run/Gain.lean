import StepFlow.Proofs.Run.Leg

/-! What a visit adds to a run whose calls are noted. Either it makes no call and leaves at most one
trace, or its call is answered and leaves one note, one entry, one trace and maybe a branch, or its
call is cancelled. The fifteen ways in which a visit can end come to these three. -/
namespace StepFlow

variable {σ : Type}

/-- The kind of violation that a trace tells of. -/
def Trace.violation? (t : Trace) : Option String :=
  match t.status, t.metadata with
  | .scopeViolation, .map fields =>
    match Table.get? fields "violationType" with
    | some (.text word) => some word
    | _ => none
  | _, _ => none

/-- Whether a trace tells that the limit of tokens was broken. -/
def Trace.tellsTokens (t : Trace) : Bool :=
  t.violation? = some ViolationType.tokenLimitExceeded.word

namespace Call

/-- The output of a call, null when it failed. -/
def output (c : Call) : Value :=
  match c.outcome with
  | .ok r => r.output
  | .error _ => .null

/-- What a call says that it has spent. -/
def spent (c : Call) : Usage :=
  match c.outcome with
  | .ok r => r.usage.getD Usage.none
  | .error _ => Usage.none

/-- The branch that a call has named by an id. -/
def named? (c : Call) : Option String :=
  match c.outcome with
  | .ok r =>
    match r.nextBranch with
    | .text id => if id.isEmpty then none else some id
    | _ => none
  | .error _ => none

end Call

namespace Plan

/-- The type that an item is traced with. -/
def typeOf (plan : Plan σ) (id : String) : String :=
  match plan.flow.step? id with
  | some s => s.type
  | none => "unknown"

/-- The step of the flow that a router has chosen by its call. -/
def target? (plan : Plan σ) (c : Call) : Option String :=
  if c.step.type = Flow.routerType then c.named?.filter fun id => (plan.flow.step? id).isSome
  else none

/-- Whether the tokens after a call are within their limit, if there is one. -/
def affords (plan : Plan σ) (c : Call) : Bool :=
  plan.budget.scopes.maxTotalTokens ≤ 0 ||
    (c.ledger.usage.add c.spent).total ≤ plan.budget.scopes.maxTotalTokens

/-- What a call queues: of the chain that begins with its target, the steps of the flow that have
not run by then. -/
def branchOf (plan : Plan σ) (c : Call) : List String :=
  match plan.target? c with
  | some target =>
    if plan.affords c then
      (plan.flow.chainFrom target).filter fun id =>
        (plan.flow.step? id).isSome && !(c.ledger.has id || id = c.step.id)
    else []
  | none => []

end Plan

namespace Ledger

theorem has_append (l : Ledger) (e : Entry) (id : String) :
    Ledger.has { l with entries := l.entries ++ [e] } id = (l.has id || id = e.stepId) := by
  rw [Bool.eq_iff_iff]
  simp [has_iff_mem, stepIds]

theorem output_append {l : Ledger} {e : Entry} (hFresh : l.has e.stepId = false) :
    Ledger.output { l with entries := l.entries ++ [e] } e.stepId = e.output := by
  have hNone : l.entries.find? (fun e' => e'.stepId = e.stepId) = none := by
    simpa [has, entry?] using hFresh
  simp [output, entry?, hNone]

theorem usage_append (l : Ledger) (e : Entry) :
    Ledger.usage { l with entries := l.entries ++ [e] } = l.usage.add (e.usage.getD Usage.none) := by
  unfold usage
  rw [List.filterMap_append, Usage.sum_append]
  cases hUsage : e.usage with
  | none => simp [hUsage, Usage.sum]
  | some u => simp [hUsage, Usage.sum]

end Ledger

namespace Budget

/-- The tokens pass their check exactly when there is no limit or it is kept. -/
theorem checkAfter_eq_none_iff {b : Budget} {l : Ledger} :
    b.checkAfter l = .ok none ↔
      b.scopes.maxTotalTokens ≤ 0 ∨ l.usage.total ≤ b.scopes.maxTotalTokens := by
  unfold checkAfter
  simp only
  split
  · rename_i hOver
    simp only [Bool.and_eq_true, decide_eq_true_eq] at hOver
    cases tokenViolation b.scopes.maxTotalTokens l.usage.total <;> simp [Except.map] <;> omega
  · rename_i hKept
    simp only [Bool.and_eq_true, decide_eq_true_eq] at hKept
    simp only [true_iff]
    omega

/-- A violation is only found if both of its counts can be told. -/
theorem writable_of_checkAfter {b : Budget} {l : Ledger} {v : Violation}
    (h : b.checkAfter l = .ok (some v)) :
    (Value.int l.usage.total).isWritable = true ∧
      (Value.int b.scopes.maxTotalTokens).isWritable = true := by
  have hOver : 0 < b.scopes.maxTotalTokens ∧ b.scopes.maxTotalTokens < l.usage.total := by
    have hSome : ¬ b.checkAfter l = .ok none := by
      rw [h]
      exact nofun
    rw [checkAfter_eq_none_iff] at hSome
    omega
  have hTold : ¬ ((Value.int l.usage.total).isWritable = false ∨
      (Value.int b.scopes.maxTotalTokens).isWritable = false) := by
    intro hLong
    rw [checkAfter_eq_error_iff.mpr ⟨rfl, hOver.1, hOver.2, hLong⟩] at h
    cases h
  simpa using hTold

theorem type_of_checkAfter {b : Budget} {l : Ledger} {v : Violation}
    (h : b.checkAfter l = .ok (some v)) : v.type = .tokenLimitExceeded := by
  unfold checkAfter at h
  simp only at h
  split at h
  · unfold tokenViolation at h
    cases hTotal : countText l.usage.total with
    | error f => simp [hTotal, bind, Except.bind, Except.map] at h
    | ok total =>
        cases hLimit : countText b.scopes.maxTotalTokens with
        | error f => simp [hTotal, hLimit, bind, Except.bind, Except.map] at h
        | ok limit =>
            simp only [hTotal, hLimit, bind, Except.bind, Except.map, pure, Except.pure] at h
            cases h
            rfl
  · cases h

theorem type_of_checkTime {b : Budget} {now : Float} {v : Violation}
    (h : b.checkTime now = .ok (some v)) : v.type = .timeLimitExceeded := by
  unfold checkTime at h
  by_cases hLimit : b.scopes.maxExecutionTimeMs ≤ 0
  · simp [hLimit, pure, Except.pure] at h
  · cases hElapsed : b.elapsedMs now with
    | error f => simp [hLimit, hElapsed, bind, Except.bind] at h
    | ok elapsed =>
        by_cases hTimely : elapsed ≤ b.scopes.maxExecutionTimeMs
        · simp [hLimit, hElapsed, hTimely, bind, Except.bind, pure, Except.pure] at h
        · simp only [hLimit, hElapsed, hTimely, bind, Except.bind, pure, Except.pure, if_false,
            Except.ok.injEq, Option.some.injEq] at h
          subst h
          rfl

end Budget

namespace Plan

/-- The trace of a step that has broken the limit of tokens. -/
def overspent (id type : String) (now : Float) (message : String) : Trace :=
  .instant id type .scopeViolation now (some message)
    (.map [("violationType", .text ViolationType.tokenLimitExceeded.word)])

/-- What the check after a call leads to: nothing within the limit, else a trace and the end of the
run, unless one of the two counts is too long to be told. -/
inductive Audited (plan : Plan σ) (c : Call) : List Trace → Ending → Prop where
  | within {ending : Ending} (hAffords : plan.affords c = true) : Audited plan c [] ending
  | exceeded {now : Float} {message : String} (hAffords : plan.affords c = false)
      (hShort : (Value.int (c.ledger.usage.add c.spent).total).isWritable = true ∧
        (Value.int plan.budget.scopes.maxTotalTokens).isWritable = true) :
      Audited plan c [overspent c.step.id c.step.type now message] (.finished (some message))
  | untold (hAffords : plan.affords c = false)
      (hLong : (Value.int (c.ledger.usage.add c.spent).total).isWritable = false ∨
        (Value.int plan.budget.scopes.maxTotalTokens).isWritable = false) :
      Audited plan c [] (.brokenOff (.fault .integerTooLong))

/-- Nothing can carry out an item: it is no step, or its type has no executor. -/
def Strands (plan : Plan σ) (id : String) : Prop :=
  ∀ s, plan.flow.step? id = some s → plan.executors s.type = none

/-- The traces of a visit without a call: one of the item, or none at the end of a run. It is only
an error when nothing can carry out the item. -/
def Passed (plan : Plan σ) (id : String) (told : List Trace) (ending : Ending) : Prop :=
  (told = [] ∧ ending ≠ .finished none) ∨
    ∃ status now error metadata, told = [.instant id (plan.typeOf id) status now error metadata] ∧
      status ≠ .completed ∧
      (Trace.instant id (plan.typeOf id) status now error metadata).tellsTokens = false ∧
      (status = .error → plan.Strands id)

/-- What a visit of an item adds. -/
inductive Gain (plan : Plan σ) (id : String) (p : Progress (σ × List Call))
    (v : Visited (σ × List Call)) : Prop where
  | quiet (world : σ) (told : List Trace) (events : List Log.Event)
      (hAfter : v.parts.1 =
        { p with world := (world, p.world.2), traces := p.traces ++ told, events })
      (hTold : plan.Passed id told v.parts.2)
  | answered {s : Step} {q : Progress (σ × List Call)} {c : Call}
      {outcome : Except Fault StepResult} (world : σ) (started completed : Float)
      (told : List Trace) (events : List Log.Event) (hCleared : plan.watched.Cleared id p s q)
      (hCall : c = ⟨s, p.ledger, outcome.mapError .fault⟩)
      (hAfter : v.parts.1 =
        { world := (world, p.world.2 ++ [c])
          ledger := { p.ledger with
            entries := p.ledger.entries ++ [entryOf s started completed (resultOf outcome)] }
          pending := p.pending ++ plan.branchOf c
          traces := p.traces ++ traceOf s started completed (resultOf outcome) :: told
          lastOutput :=
            if (resultOf outcome).failed then p.lastOutput else (resultOf outcome).output
          executed := p.executed + 1
          events })
      (hTold : plan.Audited c told v.parts.2)
  | cancelled {s : Step} {q : Progress (σ × List Call)} (world : σ)
      (hCleared : plan.watched.Cleared id p s q)
      (hAfter : v.parts.1 =
        { p with world := (world, p.world.2 ++ [⟨s, p.ledger, .error .cancelled⟩]) })
      (hEnd : v.parts.2 = .brokenOff .cancelled)

variable {plan : Plan σ}

theorem typeOf_of_step? {id : String} {s : Step} (h : plan.flow.step? id = some s) :
    plan.typeOf id = s.type := by
  unfold typeOf
  rw [h]

/-- What is no text chooses nothing. -/
theorem chosenTarget_of_ne_text {s : Step} {r : StepResult} {target : Option String}
    (hText : ∀ id, r.nextBranch ≠ .text id) (h : plan.chosenTarget s r = .ok target) :
    target = none := by
  unfold chosenTarget at h
  split at h
  · split at h
    · rename_i id hBranch
      exact absurd hBranch (hText id)
    · split at h
      · cases h
        rfl
      · cases h
  · cases h
    rfl

theorem target?_of_ne_text {s : Step} {l : Ledger} {outcome : Except Fault StepResult}
    (hText : ∀ id, (resultOf outcome).nextBranch ≠ .text id) :
    plan.target? ⟨s, l, outcome.mapError .fault⟩ = none := by
  have hNamed : Call.named? ⟨s, l, outcome.mapError .fault⟩ = none := by
    cases outcome with
    | error f => rfl
    | ok r =>
        simp only [Call.named?, Except.mapError]
        split
        · rename_i id hBranch
          exact absurd hBranch (hText id)
        · rfl
  simp [target?, hNamed]

/-- The target of an answered call is what its router has chosen. -/
theorem target?_of_chosen {s : Step} {l : Ledger} {outcome : Except Fault StepResult}
    {target : Option String} (h : plan.chosenTarget s (resultOf outcome) = .ok target) :
    plan.target? ⟨s, l, outcome.mapError .fault⟩ = target := by
  by_cases hText : ∃ id, (resultOf outcome).nextBranch = .text id
  · obtain ⟨id, hBranch⟩ := hText
    cases outcome with
    | error f => cases hBranch
    | ok r =>
        change r.nextBranch = .text id at hBranch
        change plan.chosenTarget s r = .ok target at h
        unfold chosenTarget at h
        unfold target? Call.named?
        simp only [Except.mapError, hBranch, Value.isVoid] at h ⊢
        by_cases hRouter : s.type = Flow.routerType
        · cases hEmpty : id.isEmpty with
          | true =>
              simp only [hRouter, hEmpty] at h ⊢
              cases h
              rfl
          | false =>
              simp only [hRouter, hEmpty] at h ⊢
              cases h
              simp [Option.filter]
        · simp only [hRouter] at h ⊢
          cases h
          rfl
  · have hNone : ∀ id, (resultOf outcome).nextBranch ≠ .text id := fun id hBranch =>
      hText ⟨id, hBranch⟩
    rw [target?_of_ne_text hNone, chosenTarget_of_ne_text hNone h]

theorem spent_of_call {s : Step} {l : Ledger} {outcome : Except Fault StepResult}
    (started completed : Float) :
    Call.spent ⟨s, l, outcome.mapError .fault⟩ =
      (entryOf s started completed (resultOf outcome)).usage.getD Usage.none := by
  cases outcome <;> rfl

theorem output_of_call (s : Step) (l : Ledger) (outcome : Except Fault StepResult) :
    Call.output ⟨s, l, outcome.mapError .fault⟩ = (resultOf outcome).output := by
  cases outcome <;> rfl

/-- A call is within the limit exactly when the check after its step finds nothing. -/
theorem affords_iff {s : Step} {l : Ledger} {outcome : Except Fault StepResult}
    {started completed : Float} :
    plan.affords ⟨s, l, outcome.mapError .fault⟩ = true ↔
      plan.budget.checkAfter
        { l with entries := l.entries ++ [entryOf s started completed (resultOf outcome)] } =
          .ok none := by
  rw [Budget.checkAfter_eq_none_iff, Ledger.usage_append, ← spent_of_call (l := l)]
  simp [affords]

/-- Where the check after a step fails, no branch is queued. -/
theorem branchOf_of_not_affords {c : Call} (h : plan.affords c = false) : plan.branchOf c = [] := by
  unfold branchOf
  split
  · simp [h]
  · rfl

theorem branchOf_of_no_target {c : Call} (h : plan.target? c = none) : plan.branchOf c = [] := by
  unfold branchOf
  rw [h]

/-- The branch of a call is what the visit queues for its target. -/
theorem branchOf_of_target {s : Step} {l : Ledger} {outcome : Except Fault StepResult}
    {started completed : Float} {target : String}
    (hAffords : plan.affords ⟨s, l, outcome.mapError .fault⟩ = true)
    (hTarget : plan.target? ⟨s, l, outcome.mapError .fault⟩ = some target) :
    plan.branchOf ⟨s, l, outcome.mapError .fault⟩ =
      plan.branchFrom
        { l with entries := l.entries ++ [entryOf s started completed (resultOf outcome)] }
        target := by
  unfold branchOf branchFrom
  rw [hTarget]
  simp only [hAffords, if_true, Ledger.has_append]
  rfl

/-- Reading the clock beside notes changes nothing but the world that it stands in. -/
theorem watched_checkTime_eq {p q : Progress (σ × List Call)} {v : Except Fault (Option Violation)}
    (h : plan.watched.checkTime p = (v, q)) :
    ∃ world, q = { p with world := (world, p.world.2) } := by
  refine ⟨q.world.1, ?_⟩
  rw [← watched_checkTime h]
  exact checkTime_eq h

/-- Queueing a branch changes the queue and the log. -/
theorem branched_eq {plan : Plan σ} {s : Step} {w : Progress σ} {target : Option String} :
    plan.branched s w target = { w with
      pending := (plan.branched s w target).pending
      events := (plan.branched s w target).events } := by
  cases target <;> rfl

/-- What is queued for the target of an answered call is its branch. -/
theorem pending_branched {s : Step} {l : Ledger} {outcome : Except Fault StepResult}
    {started completed : Float} {w : Progress (σ × List Call)} {target : Option String}
    (hLedger : w.ledger =
      { l with entries := l.entries ++ [entryOf s started completed (resultOf outcome)] })
    (hCheck : plan.budget.checkAfter w.ledger = .ok none)
    (hTarget : plan.chosenTarget s (resultOf outcome) = .ok target) :
    (plan.watched.branched s w target).pending =
      w.pending ++ plan.branchOf ⟨s, l, outcome.mapError .fault⟩ := by
  rw [hLedger] at hCheck
  have hChosen := target?_of_chosen (l := l) hTarget
  cases target with
  | none =>
      rw [branchOf_of_no_target hChosen, List.append_nil]
      rfl
  | some id =>
      rw [branchOf_of_target (affords_iff.mpr hCheck) hChosen, ← hLedger]
      rfl

/-- What follows on the result of a noted call. -/
theorem Settling.gain {id : String} {p q w : Progress (σ × List Call)} {s : Step} {c : Call}
    {outcome : Except Fault StepResult} {world : σ} {started completed : Float}
    {events : List Log.Event} {v : Visited (σ × List Call)}
    (h : plan.watched.Settling s (resultOf outcome) w v)
    (hCleared : plan.watched.Cleared id p s q)
    (hCall : c = ⟨s, p.ledger, outcome.mapError .fault⟩)
    (hWritten : w =
      { world := (world, p.world.2 ++ [c])
        ledger := { p.ledger with
          entries := p.ledger.entries ++ [entryOf s started completed (resultOf outcome)] }
        pending := p.pending
        traces := p.traces ++ [traceOf s started completed (resultOf outcome)]
        lastOutput := if (resultOf outcome).failed then p.lastOutput else (resultOf outcome).output
        executed := p.executed + 1
        events }) : plan.Gain id p v := by
  have hLedger : w.ledger = { p.ledger with
      entries := p.ledger.entries ++ [entryOf s started completed (resultOf outcome)] } := by
    rw [hWritten]
  have hAffords : plan.affords c = true ↔ plan.watched.budget.checkAfter w.ledger = .ok none := by
    rw [hCall, hLedger]
    exact affords_iff
  have hTotal : w.ledger.usage = c.ledger.usage.add c.spent := by
    rw [hLedger, Ledger.usage_append, ← spent_of_call (l := p.ledger), hCall]
  -- the check that the engine makes reads the ledger behind the call, the audit only the call
  cases h with
  | uncounted hCheck =>
      have hOver : plan.affords c = false := by
        rw [← Bool.not_eq_true, hAffords, hCheck]
        exact nofun
      obtain ⟨rfl, -, -, hLong⟩ := Budget.checkAfter_eq_error_iff.mp hCheck
      rw [hTotal] at hLong
      refine .answered world started completed [] events hCleared hCall ?_ (.untold hOver hLong)
      rw [branchOf_of_not_affords hOver, List.append_nil]
      exact hWritten
  | @exceeded v hCheck =>
      have hOver : plan.affords c = false := by
        rw [← Bool.not_eq_true, hAffords, hCheck]
        exact nofun
      have hType : v.type = .tokenLimitExceeded := Budget.type_of_checkAfter hCheck
      have hShort := Budget.writable_of_checkAfter hCheck
      rw [hTotal] at hShort
      refine .answered (w.withViolation plan.watched.host s v).world.1 started completed
        [overspent c.step.id c.step.type (plan.host.stamp.run w.world.1).1 v.message]
        (w.withViolation plan.watched.host s v).events hCleared hCall ?_ (.exceeded hOver hShort)
      rw [branchOf_of_not_affords hOver, List.append_nil, overspent, ← hType,
        List.append_cons p.traces, hWritten, hCall]
      rfl
  | astray hCheck hTarget =>
      -- what cannot be looked up among the steps is no text, and so names no target
      have hNone : plan.branchOf c = [] := by
        rw [hCall]
        apply branchOf_of_no_target
        apply target?_of_ne_text
        intro id hText
        have hAstray := (chosenTarget_eq_error_iff.mp hTarget).2.2.1
        rw [hText] at hAstray
        cases hAstray
      refine .answered world started completed [] events hCleared hCall ?_
        (.within (hAffords.mpr hCheck))
      rw [hNone, List.append_nil]
      exact hWritten
  | @aborted target hCheck hTarget =>
      refine .answered world started completed [] (plan.watched.branched s w target).events hCleared
        hCall ?_ (.within (hAffords.mpr hCheck))
      simp only [Visited.parts]
      rw [branched_eq, pending_branched hLedger hCheck hTarget, hWritten, hCall]
  | @continued target hCheck hTarget =>
      refine .answered world started completed [] (plan.watched.branched s w target).events hCleared
        hCall ?_ (.within (hAffords.mpr hCheck))
      simp only [Visited.parts]
      rw [branched_eq, pending_branched hLedger hCheck hTarget, hWritten, hCall]

/-- What is written for an answered call, with its note. -/
theorem settled_of_cleared {id : String} {p q : Progress (σ × List Call)} {s : Step}
    {executor : Executor (σ × List Call)} {outcome : Except Fault StepResult}
    {world : σ × List Call} (hCleared : plan.watched.Cleared id p s q)
    (hServed : plan.watched.executors s.type = some executor)
    (hCall : plan.watched.call executor s q = (outcome.mapError .fault, world)) :
    ∃ after started completed events, plan.watched.settled s q world (resultOf outcome) =
      { world := (after, p.world.2 ++ [⟨s, p.ledger, outcome.mapError .fault⟩])
        ledger := { p.ledger with
          entries := p.ledger.entries ++ [entryOf s started completed (resultOf outcome)] }
        pending := p.pending
        traces := p.traces ++ [traceOf s started completed (resultOf outcome)]
        lastOutput := if (resultOf outcome).failed then p.lastOutput else (resultOf outcome).output
        executed := p.executed + 1
        events } := by
  have hNotes := watched_call hServed hCall
  refine ⟨(plan.host.stamp.run world.1).2, (plan.watched.times q world).1,
    (plan.watched.times q world).2, (plan.watched.settled s q world (resultOf outcome)).events, ?_⟩
  obtain ⟨w, rfl⟩ := watched_checkTime_eq hCleared.timely
  rw [← hNotes]
  rfl

theorem type_of_checkTime {p q : Progress σ} {v : Violation} (h : plan.checkTime p = (.ok (some v), q)) :
    v.type = .timeLimitExceeded := by
  unfold checkTime at h
  split at h
  · cases h
  · simp only [Prod.mk.injEq] at h
    exact Budget.type_of_checkTime h.1

theorem afterFailure_after {plan : Plan σ} {q : Progress σ} {error : String} :
    (plan.afterFailure q error).parts.1 = q := by
  unfold afterFailure
  split
  · rfl
  · rfl

/-- A trace of a mere instant that an item may leave. -/
theorem passed_instant {id type : String} {status : Status} {now : Float} {error : Option String}
    {metadata : Value} {ending : Ending} (hType : plan.typeOf id = type)
    (hStatus : status ≠ .completed)
    (hTokens : (Trace.instant id type status now error metadata).tellsTokens = false)
    (hError : status = .error → plan.Strands id) :
    plan.Passed id [.instant id type status now error metadata] ending := by
  subst hType
  exact .inr ⟨_, _, _, _, rfl, hStatus, hTokens, hError⟩

/-- A visit that only reads the clock and ends the run adds nothing. -/
theorem Gain.silent {id : String} {p : Progress (σ × List Call)} {v : Visited (σ × List Call)}
    (world : σ) (hAfter : v.parts.1 = { p with world := (world, p.world.2) })
    (hEnd : v.parts.2 ≠ .finished none) : plan.Gain id p v := by
  refine .quiet world [] p.events ?_ (.inl ⟨rfl, hEnd⟩)
  rw [hAfter, List.append_nil]

/-- Every visit adds what one of the three ways adds. -/
theorem gain_visit (plan : Plan σ) (id : String) (p : Progress (σ × List Call)) :
    plan.Gain id p (plan.watched.visit id p) := by
  have hTurn := turn_visit plan.watched id p
  generalize plan.watched.visit id p = v at hTurn
  cases hTurn with
  | capped => exact .silent p.world.1 rfl nofun
  | untold => exact .silent p.world.1 rfl nofun
  | unknown _ hStep =>
      have hNone : plan.flow.step? id = none := hStep
      have hType : plan.typeOf id = "unknown" := by
        unfold typeOf
        rw [hNone]
      have hStrands : plan.Strands id := by
        intro s hSome
        rw [hNone] at hSome
        cases hSome
      exact .quiet _ _ _ afterFailure_after (passed_instant hType nofun rfl fun _ => hStrands)
  | again _ hStep =>
      obtain rfl := id_of_step? hStep
      exact .quiet _ _ _ rfl (passed_instant (typeOf_of_step? hStep) nofun rfl nofun)
  | clockless _ hTime =>
      obtain ⟨w, rfl⟩ := watched_checkTime_eq hTime
      exact .silent w rfl nofun
  | @late s v q hDue hTime =>
      obtain rfl := id_of_step? hDue.step
      have hType : v.type = .timeLimitExceeded := type_of_checkTime hTime
      obtain ⟨w, rfl⟩ := watched_checkTime_eq hTime
      refine .quiet _ _ _ rfl (passed_instant (typeOf_of_step? hDue.step) nofun ?_ nofun)
      rw [hType]
      rfl
  | undecided _ hTime =>
      obtain ⟨w, rfl⟩ := watched_checkTime_eq hTime
      exact .silent w rfl nofun
  | skipped hDue hTime =>
      obtain rfl := id_of_step? hDue.step
      obtain ⟨w, rfl⟩ := watched_checkTime_eq hTime
      exact .quiet _ _ _ rfl (passed_instant (typeOf_of_step? hDue.step) nofun rfl nofun)
  | @unserved s q hCleared hNone =>
      obtain rfl := id_of_step? hCleared.step
      have hStrands : plan.Strands s.id := by
        intro s' hSome
        obtain rfl := Option.some.inj (hCleared.step.symm.trans hSome)
        exact Option.map_eq_none_iff.mp hNone
      obtain ⟨w, rfl⟩ := watched_checkTime_eq hCleared.timely
      exact .quiet _ _ _ afterFailure_after
        (passed_instant (typeOf_of_step? hCleared.step) nofun rfl fun _ => hStrands)
  | @cancelled s q executor world hCleared hServed hCall =>
      have hNotes := watched_call hServed hCall
      obtain ⟨w, rfl⟩ := watched_checkTime_eq hCleared.timely
      refine .cancelled world.1 hCleared ?_ rfl
      rw [← hNotes]
      rfl
  | answered hCleared hServed hCall =>
      obtain ⟨_, _, _, _, hWritten⟩ := settled_of_cleared hCleared hServed hCall
      exact (settling_afterResult _ _ _ _).gain hCleared rfl hWritten

/-- After a call that is answered the run only goes on within the limit. -/
theorem Audited.affords_of_goesOn {c : Call} {told : List Trace}
    (h : plan.Audited c told (.finished none)) : plan.affords c = true := by
  cases h with
  | within hAffords => exact hAffords

/-- All that the check after a call may leave is a trace of the limit of tokens. -/
theorem Audited.told {c : Call} {told : List Trace} {ending : Ending}
    (h : plan.Audited c told ending) :
    ∀ t ∈ told, ∃ now message, t = overspent c.step.id c.step.type now message := by
  cases h with
  | within => exact nofun
  | exceeded =>
      intro t hTold
      exact ⟨_, _, List.mem_singleton.mp hTold⟩
  | untold => exact nofun

/-- Nothing that is noted, written, traced or queued is ever taken back. -/
theorem Gain.prefixes {id : String} {p : Progress (σ × List Call)} {v : Visited (σ × List Call)}
    (h : plan.Gain id p v) :
    p.world.2 <+: v.parts.1.world.2 ∧ p.ledger.entries <+: v.parts.1.ledger.entries ∧
      p.traces <+: v.parts.1.traces ∧ p.pending <+: v.parts.1.pending := by
  cases h with
  | quiet world told events hAfter =>
      rw [hAfter]
      exact ⟨List.prefix_rfl, List.prefix_rfl, List.prefix_append _ _, List.prefix_rfl⟩
  | answered world started completed told events hCleared hCall hAfter =>
      rw [hAfter]
      exact ⟨List.prefix_append _ _, List.prefix_append _ _, List.prefix_append _ _,
        List.prefix_append _ _⟩
  | cancelled world hCleared hAfter =>
      rw [hAfter]
      exact ⟨List.prefix_append _ _, List.prefix_rfl, List.prefix_rfl, List.prefix_rfl⟩

/-- A visit leaves the trigger and the metadata of the ledger alone. -/
theorem Gain.frame {id : String} {p : Progress (σ × List Call)} {v : Visited (σ × List Call)}
    (h : plan.Gain id p v) :
    v.parts.1.ledger.trigger = p.ledger.trigger ∧ v.parts.1.ledger.metadata = p.ledger.metadata := by
  cases h with
  | quiet world told events hAfter =>
      rw [hAfter]
      exact ⟨rfl, rfl⟩
  | answered world started completed told events hCleared hCall hAfter =>
      rw [hAfter]
      exact ⟨rfl, rfl⟩
  | cancelled world hCleared hAfter =>
      rw [hAfter]
      exact ⟨rfl, rfl⟩

theorem frame_walk (plan : Plan σ) (start : Progress (σ × List Call)) :
    (plan.watched.walk start).1.ledger.trigger = start.ledger.trigger ∧
      (plan.watched.walk start).1.ledger.metadata = start.ledger.metadata := by
  apply walk_preserves fun p _ =>
    p.ledger.trigger = start.ledger.trigger ∧ p.ledger.metadata = start.ledger.metadata
  · exact ⟨rfl, rfl⟩
  · intro p id rest hPrior _
    obtain ⟨hTrigger, hMetadata⟩ := (gain_visit plan id { p with pending := rest }).frame
    exact ⟨hTrigger.trans hPrior.1, hMetadata.trans hPrior.2⟩

theorem grows_notes (plan : Plan σ) : plan.watched.Grows fun p => p.world.2 :=
  ⟨fun _ _ => rfl, fun id p => (gain_visit plan id p).prefixes.1⟩

theorem grows_entries (plan : Plan σ) : plan.watched.Grows fun p => p.ledger.entries :=
  ⟨fun _ _ => rfl, fun id p => (gain_visit plan id p).prefixes.2.1⟩

theorem grows_traces (plan : Plan σ) : plan.watched.Grows Progress.traces :=
  ⟨fun _ _ => rfl, fun id p => (gain_visit plan id p).prefixes.2.2.1⟩

/-- What a leg adds: that of its visit, list by list. -/
inductive Adds (plan : Plan σ) (l : Leg (σ × List Call)) : Prop where
  | quiet (hCalls : l.calls = []) (hEntries : l.entries = []) (hQueued : l.queued = [])
      (hTold : plan.Passed l.item l.traces l.visited.parts.2)
  | answered {s : Step} {q : Progress (σ × List Call)} {c : Call}
      {outcome : Except Fault StepResult} (started completed : Float) (told : List Trace)
      (hCleared : plan.watched.Cleared l.item l.before s q)
      (hCall : c = ⟨s, l.before.ledger, outcome.mapError .fault⟩) (hCalls : l.calls = [c])
      (hEntries : l.entries = [entryOf s started completed (resultOf outcome)])
      (hQueued : l.queued = plan.branchOf c)
      (hTraces : l.traces = traceOf s started completed (resultOf outcome) :: told)
      (hTold : plan.Audited c told l.visited.parts.2)
  | cancelled {s : Step} {q : Progress (σ × List Call)}
      (hCleared : plan.watched.Cleared l.item l.before s q)
      (hCalls : l.calls = [⟨s, l.before.ledger, .error .cancelled⟩]) (hEntries : l.entries = [])
      (hQueued : l.queued = []) (hTraces : l.traces = [])
      (hEnd : l.visited.parts.2 = .brokenOff .cancelled)

theorem Gain.adds {l : Leg (σ × List Call)} (h : plan.Gain l.item l.before l.visited) :
    plan.Adds l := by
  cases h with
  | quiet world told events hAfter hTold =>
      have hTraces : l.traces = told := Leg.gained_of_append (by rw [Leg.after, hAfter])
      refine .quiet ?_ ?_ ?_ (hTraces ▸ hTold)
      · exact Leg.gained_of_append (by rw [Leg.after, hAfter, List.append_nil])
      · exact Leg.gained_of_append (by rw [Leg.after, hAfter, List.append_nil])
      · exact Leg.gained_of_append (by rw [Leg.after, hAfter, List.append_nil])
  | answered world started completed told events hCleared hCall hAfter hTold =>
      refine .answered started completed told hCleared hCall ?_ ?_ ?_ ?_ hTold
      · exact Leg.gained_of_append (by rw [Leg.after, hAfter])
      · exact Leg.gained_of_append (by rw [Leg.after, hAfter])
      · exact Leg.gained_of_append (by rw [Leg.after, hAfter])
      · exact Leg.gained_of_append (by rw [Leg.after, hAfter])
  | cancelled world hCleared hAfter hEnd =>
      refine .cancelled hCleared ?_ ?_ ?_ ?_ hEnd
      · exact Leg.gained_of_append (by rw [Leg.after, hAfter])
      · exact Leg.gained_of_append (by rw [Leg.after, hAfter, List.append_nil])
      · exact Leg.gained_of_append (by rw [Leg.after, hAfter, List.append_nil])
      · exact Leg.gained_of_append (by rw [Leg.after, hAfter, List.append_nil])

/-- A call is made for a step that is cleared, and its executor is shown the ledger as it stands. -/
theorem Adds.cleared {l : Leg (σ × List Call)} (h : plan.Adds l) :
    ∀ c ∈ l.calls, ∃ q, plan.watched.Cleared l.item l.before c.step q ∧ c.ledger = l.before.ledger := by
  intro c hCall
  cases h with
  | quiet hCalls =>
      rw [hCalls] at hCall
      cases hCall
  | answered started completed told hCleared hNote hCalls =>
      rw [hCalls, List.mem_singleton] at hCall
      subst hCall
      rw [hNote]
      exact ⟨_, hCleared, rfl⟩
  | cancelled hCleared hCalls =>
      rw [hCalls, List.mem_singleton] at hCall
      rw [hCall]
      exact ⟨_, hCleared, rfl⟩

theorem adds_of_mem_legs {p : Progress (σ × List Call)} {l : Leg (σ × List Call)}
    (h : l ∈ plan.watched.legs p) : plan.Adds l := by
  obtain ⟨_, _, -, -, -, hVisited⟩ := reaches_of_mem_legs h
  apply Gain.adds
  rw [hVisited]
  exact gain_visit plan _ _

end Plan

namespace Engine

variable (e : Engine σ) (job : Job) (world : σ)

/-- The calls of a run are those of its visits, and likewise its entries and its traces. -/
theorem calls_record : (e.record job world).1.world.2 = (e.visits job world).flatMap Leg.calls :=
  (Plan.grows_notes _).walk _

theorem entries_record :
    (e.record job world).1.ledger.entries = (e.visits job world).flatMap Leg.entries :=
  (Plan.grows_entries _).walk _

theorem traces_record :
    (e.record job world).1.traces = (e.visits job world).flatMap Leg.traces :=
  (Plan.grows_traces _).walk _

end Engine

end StepFlow
