import StepFlow.Proofs.Run.Reach

/-! What breaks a run off besides cancelling. Five things are looked at outside of any executor and
can fail there: the cap of steps in the message of a run that stops at it, the time that has elapsed,
the truth of a condition, the counts in the message of a token limit, and the branch that a router
names. -/
namespace StepFlow

variable {σ : Type}

namespace Value

/-- Only an integer beyond the range of doubles has no truth. -/
theorem truth_eq_error_iff {v : Value} {f : Fault} :
    v.truth = .error f ↔
      .integerTooLarge = f ∧ ∃ n, v = .int n ∧ n ≠ 0 ∧ Number.ofInt? n = none := by
  cases v with
  | int n =>
      by_cases hZero : n = 0
      · simp [truth, hZero]
      · cases hDouble : Number.ofInt? n with
        | none => simp [truth, doubleOf, hZero, hDouble, Except.map]
        | some x => simp [truth, doubleOf, hZero, hDouble, Except.map]
  | _ => simp [truth]

end Value

/-- A condition has no truth exactly when its value has none. -/
theorem Expr.condition_eq_error_iff {c : String} {context : Context} {f : Fault} :
    (condition c context).1 = .error f ↔
      .integerTooLarge = f ∧ ∃ n, (evaluate (conditionBody c) context).1 = .int n ∧ n ≠ 0 ∧
        Number.ofInt? n = none := by
  unfold condition
  exact Value.truth_eq_error_iff

namespace Budget

/-- The time is not told exactly when there is a limit and no finite time has elapsed. -/
theorem checkTime_eq_error_iff {b : Budget} {now : Float} {f : Fault} :
    b.checkTime now = .error f ↔
      0 < b.scopes.maxExecutionTimeMs ∧ b.elapsedMs now = .error f := by
  unfold checkTime
  by_cases hLimit : b.scopes.maxExecutionTimeMs ≤ 0
  · have hNone : ¬ 0 < b.scopes.maxExecutionTimeMs := by omega
    simp [hLimit, hNone, pure, Except.pure]
  · have hSome : 0 < b.scopes.maxExecutionTimeMs := by omega
    cases hElapsed : b.elapsedMs now with
    | error f => simp [hLimit, hSome, bind, Except.bind]
    | ok elapsed =>
        by_cases hTimely : elapsed ≤ b.scopes.maxExecutionTimeMs
        · simp [hLimit, hTimely, bind, Except.bind, pure, Except.pure]
        · simp [hLimit, hTimely, bind, Except.bind, pure, Except.pure]

/-- A time that is not finite is told by its kind. -/
theorem elapsedMs_eq_error {b : Budget} {now : Float} {f : Fault} (h : b.elapsedMs now = .error f) :
    f = .notANumber ∨ f = .infinite := by
  unfold elapsedMs at h
  simp only at h
  split at h
  · cases h
  · cases h
    by_cases hNan : ((now - b.startedAt) * 1000.0).isNaN = true
    · exact .inl (if_pos hNan)
    · exact .inr (if_neg hNan)

/-- Tokens are not counted out exactly when a limit is broken by a count that is too long. -/
theorem checkAfter_eq_error_iff {b : Budget} {l : Ledger} {f : Fault} :
    b.checkAfter l = .error f ↔
      .integerTooLong = f ∧ 0 < b.scopes.maxTotalTokens ∧ b.scopes.maxTotalTokens < l.usage.total ∧
        ((Value.int l.usage.total).isWritable = false ∨
          (Value.int b.scopes.maxTotalTokens).isWritable = false) := by
  unfold checkAfter tokenViolation countText Value.display
  simp only
  by_cases hLimit : 0 < b.scopes.maxTotalTokens
  · by_cases hOver : b.scopes.maxTotalTokens < l.usage.total
    · cases hTotal : (Value.int l.usage.total).isWritable with
      | false => simp [hLimit, hOver, Except.map, bind, Except.bind]
      | true =>
          cases hBound : (Value.int b.scopes.maxTotalTokens).isWritable with
          | false => simp [hLimit, hOver, Except.map, bind, Except.bind]
          | true => simp [hLimit, hOver, Except.map, bind, Except.bind, pure, Except.pure]
    · simp [hLimit, hOver]
  · simp [hLimit]

end Budget

namespace Plan

/-- The time is looked at once, when there is a limit. -/
theorem checkTime_eq_error_iff {plan : Plan σ} {p q : Progress σ} {f : Fault} :
    plan.checkTime p = (.error f, q) ↔
      0 < plan.budget.scopes.maxExecutionTimeMs ∧ q = (p.read plan.host.seconds).2 ∧
        plan.budget.elapsedMs (p.read plan.host.seconds).1 = .error f := by
  unfold checkTime
  by_cases hLimit : plan.budget.scopes.maxExecutionTimeMs ≤ 0
  · have hNone : ¬ 0 < plan.budget.scopes.maxExecutionTimeMs := by omega
    simp [hLimit, hNone]
  · simp only [hLimit, if_false, Prod.mk.injEq, Budget.checkTime_eq_error_iff]
    constructor
    · rintro ⟨⟨hSome, hTime⟩, rfl⟩
      exact ⟨hSome, rfl, hTime⟩
    · rintro ⟨hSome, rfl, hTime⟩
      exact ⟨⟨hSome, hTime⟩, rfl⟩

/-- A target cannot be looked for exactly when a router has named a list, a set or a mapping that
is not empty. -/
theorem chosenTarget_eq_error_iff {plan : Plan σ} {s : Step} {r : StepResult} {f : Fault} :
    plan.chosenTarget s r = .error f ↔
      s.type = Flow.routerType ∧ r.nextBranch.isVoid = false ∧ r.nextBranch.isHashable = false ∧
        .unhashable r.nextBranch.kind = f := by
  unfold chosenTarget
  by_cases hRouter : s.type = Flow.routerType
  · cases hVoid : r.nextBranch.isVoid with
    | true => simp [hRouter]
    | false =>
        cases r.nextBranch with
        | _ => simp [hRouter, Value.isHashable]
  · simp [hRouter]

/-- What breaks off the visit of an item, executors apart. -/
inductive Snag (plan : Plan σ) (id : String) (p : Progress σ) : Fault → Prop where
  | cap (hCap : plan.maxSteps ≤ p.executed)
      (hLong : (Value.int plan.maxSteps).isWritable = false) : Snag plan id p .integerTooLong
  | clock {s : Step} {f : Fault} (hDue : plan.Due id p s)
      (hLimit : 0 < plan.budget.scopes.maxExecutionTimeMs)
      (hTime : plan.budget.elapsedMs (p.read plan.host.seconds).1 = .error f) :
      Snag plan id p f
  | condition {s : Step} {q : Progress σ} {c : String} {n : Int} (hDue : plan.Due id p s)
      (hTime : plan.checkTime p = (.ok none, q)) (hCondition : s.condition = some c)
      (hText : c.isEmpty = false)
      (hValue : (Expr.evaluate (Expr.conditionBody c) q.ledger.context).1 = .int n)
      (hNonzero : n ≠ 0) (hLarge : Number.ofInt? n = none) :
      Snag plan id p .integerTooLarge
  | count {s : Step} {q : Progress σ} {executor : Executor σ} {world : σ}
      {outcome : Except Fault StepResult} {limit total : Int} (hCleared : plan.Cleared id p s q)
      (hServed : plan.executors s.type = some executor)
      (hCall : plan.call executor s q = (outcome.mapError .fault, world))
      (hLimit : limit = plan.budget.scopes.maxTotalTokens) (hSome : 0 < limit)
      (hTotal : total = (plan.settled s q world (resultOf outcome)).ledger.usage.total)
      (hOver : limit < total)
      (hLong : (Value.int total).isWritable = false ∨ (Value.int limit).isWritable = false) :
      Snag plan id p .integerTooLong
  | branch {s : Step} {q : Progress σ} {executor : Executor σ} {world : σ}
      {outcome : Except Fault StepResult} (hCleared : plan.Cleared id p s q)
      (hServed : plan.executors s.type = some executor)
      (hCall : plan.call executor s q = (outcome.mapError .fault, world))
      (hCheck : plan.budget.checkAfter (plan.settled s q world (resultOf outcome)).ledger = .ok none)
      (hRouter : s.type = Flow.routerType) (hNamed : (resultOf outcome).nextBranch.isVoid = false)
      (hBranch : (resultOf outcome).nextBranch.isHashable = false) :
      Snag plan id p (.unhashable (resultOf outcome).nextBranch.kind)

/-- A snag breaks the visit off. -/
theorem Snag.visit {plan : Plan σ} {id : String} {p : Progress σ} {f : Fault}
    (h : plan.Snag id p f) : ∃ q, plan.visit id p = .brokenOff q (.fault f) := by
  cases h with
  | cap hCap hLong =>
      refine ⟨p, ?_⟩
      unfold Plan.visit stopAtCap
      rw [if_pos hCap, Value.display_eq_error_iff.mpr ⟨hLong, rfl⟩]
  | clock hDue hLimit hTime =>
      refine ⟨(p.read plan.host.seconds).2, ?_⟩
      rw [visit_of_due hDue, checkTime_eq_error_iff.mpr ⟨hLimit, rfl, hTime⟩]
  | @condition s q c n hDue hTime hCondition hText hValue hNonzero hLarge =>
      refine ⟨q, ?_⟩
      have hTruth : (Expr.condition c q.ledger.context).1 = .error .integerTooLarge :=
        Expr.condition_eq_error_iff.mpr ⟨rfl, n, hValue, hNonzero, hLarge⟩
      rw [visit_of_condition hDue hTime hCondition hText]
      rcases hJudged : Expr.condition c q.ledger.context with ⟨truth, diagnostics⟩
      rw [hJudged] at hTruth
      cases hTruth
      rfl
  | @count s q executor world outcome limit total hCleared hServed hCall hLimit hSome hTotal hOver
      hLong =>
      subst hLimit hTotal
      have hCheck : plan.budget.checkAfter (plan.settled s q world (resultOf outcome)).ledger =
          .error .integerTooLong := Budget.checkAfter_eq_error_iff.mpr ⟨rfl, hSome, hOver, hLong⟩
      refine ⟨plan.settled s q world (resultOf outcome), ?_⟩
      rw [visit_of_answered hCleared hServed hCall]
      unfold afterResult
      rw [hCheck]
  | @branch s q executor world outcome hCleared hServed hCall hCheck hRouter hNamed hBranch =>
      refine ⟨plan.settled s q world (resultOf outcome), ?_⟩
      have hTarget : plan.chosenTarget s (resultOf outcome) =
          .error (.unhashable (resultOf outcome).nextBranch.kind) :=
        chosenTarget_eq_error_iff.mpr ⟨hRouter, hNamed, hBranch, rfl⟩
      rw [visit_of_answered hCleared hServed hCall]
      unfold afterResult
      rw [hCheck]
      simp only
      rw [hTarget]

/-- A failure that is reported breaks nothing off. -/
theorem afterFailure_ne_brokenOff {plan : Plan σ} {p q : Progress σ} {error : String} {why : Halt} :
    Visited.brokenOff q why ≠ plan.afterFailure p error := by
  unfold afterFailure
  split
  · exact nofun
  · exact nofun

/-- Nothing but a snag breaks the visit off with a fault. -/
theorem snag_of_visit {plan : Plan σ} {id : String} {p q : Progress σ} {f : Fault}
    (h : plan.visit id p = .brokenOff q (.fault f)) : plan.Snag id p f := by
  have hTurn := turn_visit plan id p
  rw [h] at hTurn
  generalize hEnd : Visited.brokenOff q (.fault f) = v at hTurn
  cases hTurn with
  | untold hCap hLong =>
      cases hEnd
      exact .cap hCap hLong
  | clockless hDue hTime =>
      cases hEnd
      obtain ⟨hLimit, -, hElapsed⟩ := checkTime_eq_error_iff.mp hTime
      exact .clock hDue hLimit hElapsed
  | undecided hDue hTime hCondition hText hTruth =>
      cases hEnd
      obtain ⟨rfl, n, hValue, hNonzero, hLarge⟩ := Expr.condition_eq_error_iff.mp hTruth
      exact .condition hDue hTime hCondition hText hValue hNonzero hLarge
  | @answered s q' executor world outcome hCleared hServed hCall =>
      have hSettling := settling_afterResult plan s (resultOf outcome)
        (plan.settled s q' world (resultOf outcome))
      rw [← hEnd] at hSettling
      cases hSettling with
      | uncounted hCheck =>
          obtain ⟨rfl, hSome, hOver, hLong⟩ := Budget.checkAfter_eq_error_iff.mp hCheck
          exact .count hCleared hServed hCall rfl hSome rfl hOver hLong
      | astray hCheck hTarget =>
          obtain ⟨hRouter, hNamed, hBranch, rfl⟩ := chosenTarget_eq_error_iff.mp hTarget
          exact .branch hCleared hServed hCall hCheck hRouter hNamed hBranch
  | unknown => exact absurd hEnd afterFailure_ne_brokenOff
  | unserved => exact absurd hEnd afterFailure_ne_brokenOff
  | _ => cases hEnd

/-- A snag is one of five faults. A second entry of a step is not among them. -/
theorem Snag.fault {plan : Plan σ} {id : String} {p : Progress σ} {f : Fault}
    (h : plan.Snag id p f) :
    f = .notANumber ∨ f = .infinite ∨ f = .integerTooLarge ∨ f = .integerTooLong ∨
      ∃ kind, f = .unhashable kind := by
  cases h with
  | cap => exact .inr (.inr (.inr (.inl rfl)))
  | clock _ _ hTime =>
      rcases Budget.elapsedMs_eq_error hTime with hFault | hFault
      · exact .inl hFault
      · exact .inr (.inl hFault)
  | condition => exact .inr (.inr (.inl rfl))
  | count => exact .inr (.inr (.inr (.inl rfl)))
  | branch => exact .inr (.inr (.inr (.inr ⟨_, rfl⟩)))

/-- Nothing but a cancelled call breaks the visit off without a fault. -/
theorem cancelled_of_visit {plan : Plan σ} {id : String} {p q : Progress σ}
    (h : plan.visit id p = .brokenOff q .cancelled) :
    ∃ s executor r world, plan.executors s.type = some executor ∧
      plan.call executor s r = (.error .cancelled, world) := by
  have hTurn := turn_visit plan id p
  rw [h] at hTurn
  generalize hEnd : Visited.brokenOff q .cancelled = v at hTurn
  cases hTurn with
  | cancelled _ hServed hCall => exact ⟨_, _, _, _, hServed, hCall⟩
  | @answered s q' executor world outcome =>
      have hSettling := settling_afterResult plan s (resultOf outcome)
        (plan.settled s q' world (resultOf outcome))
      rw [← hEnd] at hSettling
      cases hSettling
  | unknown => exact absurd hEnd afterFailure_ne_brokenOff
  | unserved => exact absurd hEnd afterFailure_ne_brokenOff
  | _ => cases hEnd

/-- What breaks a walk off has broken a visit off on its way. -/
theorem brokenOff_visit_of_walk {plan : Plan σ} {p q : Progress σ} {why : Halt}
    (h : plan.walk p = (q, .brokenOff why)) :
    ∃ last id rest, plan.Reaches p last ∧ last.pending = id :: rest ∧
      plan.visit id { last with pending := rest } = .brokenOff q why := by
  obtain ⟨last, hReach, hStops⟩ := walk_stops plan p
  rw [h] at hStops
  obtain ⟨id, rest, hPending, hVisit⟩ := next?_eq_some_iff.mp hStops
  exact ⟨last, id, rest, hReach, hPending, hVisit⟩

/-- A walk is broken off with a fault exactly when it comes upon a snag with that fault. -/
theorem brokenOff_walk_iff {plan : Plan σ} {p : Progress σ} {f : Fault} :
    (∃ q, plan.walk p = (q, .brokenOff (.fault f))) ↔
      ∃ last id rest, plan.Reaches p last ∧ last.pending = id :: rest ∧
        plan.Snag id { last with pending := rest } f := by
  constructor
  · rintro ⟨q, hWalk⟩
    obtain ⟨last, id, rest, hReach, hPending, hVisit⟩ := brokenOff_visit_of_walk hWalk
    exact ⟨last, id, rest, hReach, hPending, snag_of_visit hVisit⟩
  · rintro ⟨last, id, rest, hReach, hPending, hSnag⟩
    obtain ⟨q, hVisit⟩ := hSnag.visit
    refine ⟨q, ?_⟩
    rw [hReach.walk_eq, walk_eq, next?_eq_some_iff.mpr ⟨id, rest, hPending, hVisit⟩]

/-- A walk ends with an error exactly when a visit that it comes to does. -/
theorem ended_walk_iff {plan : Plan σ} {p q : Progress σ} {message : String} :
    plan.walk p = (q, .finished (some message)) ↔
      ∃ last id rest, plan.Reaches p last ∧ last.pending = id :: rest ∧
        plan.visit id { last with pending := rest } = .ended q message := by
  constructor
  · intro hWalk
    obtain ⟨last, hReach, hStops⟩ := walk_stops plan p
    rw [hWalk] at hStops
    obtain ⟨id, rest, hPending, hVisit⟩ := next?_eq_some_iff.mp hStops
    exact ⟨last, id, rest, hReach, hPending, hVisit⟩
  · rintro ⟨last, id, rest, hReach, hPending, hVisit⟩
    rw [hReach.walk_eq, walk_eq, next?_eq_some_iff.mpr ⟨id, rest, hPending, hVisit⟩]

end Plan

end StepFlow
