import StepFlow.Proofs.Run.Guard

/-! How runs fail. A visit after which a run goes on leaves one trace, and that is no violation, nor
an error when errors end the run. So a violation is the last trace of its run, and where errors end
the run nothing stands behind the first one but the violation of its own step. -/
namespace StepFlow

variable {σ : Type}

namespace Plan

variable {plan : Plan σ}

/-- A trace that a run goes on after. -/
def Passes (plan : Plan σ) (t : Trace) : Prop :=
  t.status ≠ .scopeViolation ∧ (t.status = .error → plan.abortOnError = false)

/-- A progress that a run has come to by going on. -/
def Calm (plan : Plan σ) (p : Progress σ) : Prop := ∀ t ∈ p.traces, plan.Passes t

/-- The traces that a visit leaves, with the end that it brings about. -/
inductive Telling (plan : Plan σ) (executed : Nat) : List Trace → Ending → Prop where
  | passed {t : Trace} (hPasses : plan.Passes t) : Telling plan executed [t] (.finished none)
  | capped {error : String} (hCap : plan.maxSteps ≤ executed) :
      Telling plan executed [] (.finished (some error))
  | failed {t : Trace} {error : String} (hAbort : plan.abortOnError = true)
      (hError : t.status = .error) : Telling plan executed [t] (.finished (some error))
  | late {t : Trace} {error : String} (hLate : t.status = .scopeViolation) :
      Telling plan executed [t] (.finished (some error))
  | exceeded {t u : Trace} {error : String} (hOwn : t.status ≠ .scopeViolation)
      (hOver : u.status = .scopeViolation) (hTokens : u.tellsTokens = true)
      (hStep : u.stepId = t.stepId) : Telling plan executed [t, u] (.finished (some error))
  | brokenOff {told : List Trace} {why : Halt} : Telling plan executed told (.brokenOff why)

/-- A failure is an error that the run goes on after or ends with. -/
theorem telling_afterFailure {p q : Progress σ} {t : Trace} {error : String}
    (hTraces : q.traces = p.traces ++ [t]) (hError : t.status = .error) :
    ∃ told, (plan.afterFailure q error).parts.1.traces = p.traces ++ told ∧
      plan.Telling p.executed told (plan.afterFailure q error).parts.2 := by
  refine ⟨[t], by rw [afterFailure_after, hTraces], ?_⟩
  unfold afterFailure
  split
  · rename_i hAbort
    exact .failed hAbort hError
  · rename_i hAbort
    refine .passed ⟨?_, fun _ => by simpa using hAbort⟩
    rw [hError]
    exact nofun

/-- The trace of an answered step stands alone, or before that of the tokens. -/
theorem Settling.telling {s : Step} {r : StepResult} {p w : Progress σ} {started completed : Float}
    {v : Visited σ} (h : plan.Settling s r w v)
    (hTraces : w.traces = p.traces ++ [traceOf s started completed r]) :
    ∃ told, v.parts.1.traces = p.traces ++ told ∧ plan.Telling p.executed told v.parts.2 := by
  have hBranched : ∀ target, (plan.branched s w target).traces = w.traces := by
    intro target
    cases target with
    | none => rfl
    | some id => rfl
  have hOwn : (traceOf s started completed r).status ≠ .scopeViolation := by
    cases hFailed : r.failed <;> simp [traceOf, hFailed]
  cases h with
  | uncounted => exact ⟨_, hTraces, .brokenOff⟩
  | @exceeded v hCheck =>
      have hAfter := Progress.withViolation_traces w plan.host s v
      rw [hTraces, List.append_assoc] at hAfter
      refine ⟨_, hAfter, .exceeded hOwn rfl ?_ rfl⟩
      rw [Budget.type_of_checkAfter hCheck]
      rfl
  | astray => exact ⟨_, hTraces, .brokenOff⟩
  | @aborted target _ _ hFailed hAbort =>
      refine ⟨_, (hBranched target).trans hTraces, .failed hAbort ?_⟩
      simp [traceOf, hFailed]
  | @continued target _ _ hGoing =>
      refine ⟨_, (hBranched target).trans hTraces, .passed ⟨hOwn, ?_⟩⟩
      intro hError
      refine hGoing.resolve_left fun hFailed => ?_
      simp [traceOf, hFailed] at hError

/-- Every visit leaves traces in one of these ways. -/
theorem telling_visit (plan : Plan σ) (id : String) (p : Progress σ) :
    ∃ told, (plan.visit id p).parts.1.traces = p.traces ++ told ∧
      plan.Telling p.executed told (plan.visit id p).parts.2 := by
  have hTurn := turn_visit plan id p
  generalize plan.visit id p = v at hTurn
  have hRead : ∀ {q : Progress σ} {v : Except Fault (Option Violation)},
      plan.checkTime p = (v, q) → q.traces = p.traces := by
    intro q v hTime
    rw [checkTime_eq hTime]
  have hSkipped : ∀ t : Trace, t.status = .skipped → plan.Passes t := by
    intro t hStatus
    rw [Passes, hStatus]
    exact ⟨nofun, nofun⟩
  cases hTurn with
  | capped hCap => exact ⟨[], (List.append_nil _).symm, .capped hCap⟩
  | untold => exact ⟨[], (List.append_nil _).symm, .brokenOff⟩
  | unknown => exact telling_afterFailure (Progress.withFailure_traces ..) rfl
  | again => exact ⟨_, Progress.withInstant_traces .., .passed (hSkipped _ rfl)⟩
  | clockless _ hTime => exact ⟨[], by simp [Visited.parts, hRead hTime], .brokenOff⟩
  | @late s v q _ hTime =>
      rw [← hRead hTime]
      exact ⟨_, Progress.withViolation_traces q plan.host s v, .late rfl⟩
  | undecided _ hTime => exact ⟨[], by simp [Visited.parts, hRead hTime], .brokenOff⟩
  | @skipped s q c _ hTime =>
      rw [← hRead hTime]
      exact ⟨_, Progress.withInstant_traces .., .passed (hSkipped _ rfl)⟩
  | @unserved s q hCleared =>
      have hAfter := Progress.withFailure_traces q plan.host s.id s.type (unserved s)
      rw [hRead hCleared.timely] at hAfter
      exact telling_afterFailure hAfter rfl
  | cancelled hCleared => exact ⟨[], by simp [Visited.parts, hRead hCleared.timely], .brokenOff⟩
  | @answered s q executor world outcome hCleared =>
      have hAfter : (plan.settled s q world (resultOf outcome)).traces = q.traces ++ [_] := rfl
      rw [hRead hCleared.timely] at hAfter
      exact (settling_afterResult _ _ _ _).telling hAfter

theorem calm_of_no_traces {p : Progress σ} (hNone : p.traces = []) : plan.Calm p := by
  rw [Calm, hNone]
  exact nofun

/-- A walk stays calm on its way. -/
theorem Calm.reaches {start p : Progress σ} (hCalm : plan.Calm start) (h : plan.Reaches start p) :
    plan.Calm p := by
  refine h.keeps hCalm (fun _ _ hPrior => hPrior) ?_
  intro id p hPrior hGoesOn t hTrace
  obtain ⟨told, hAfter, hTelling⟩ := telling_visit plan id p
  rw [hGoesOn] at hTelling
  cases hTelling with
  | passed hPasses =>
      rw [hAfter, List.mem_append, List.mem_singleton] at hTrace
      rcases hTrace with hEarlier | rfl
      · exact hPrior t hEarlier
      · exact hPasses

/-- The traces of a walk are those that it has gone on after, and behind them those of the visit that
ends it. -/
theorem telling_walk {start : Progress σ} (hCalm : plan.Calm start) :
    ∃ last told, plan.Reaches start last ∧ plan.Calm last ∧
      (plan.walk start).1.traces = last.traces ++ told ∧
      ((last.pending = [] ∧ told = [] ∧ (plan.walk start).2 = .finished none) ∨
        (last.pending ≠ [] ∧ plan.Telling last.executed told (plan.walk start).2 ∧
          (plan.walk start).2 ≠ .finished none)) := by
  obtain ⟨last, hReach, ⟨hPending, hWalk⟩ | ⟨id, rest, hPending, hWalk, hEnd⟩⟩ :=
    walk_eq_parts plan start
  · rw [hWalk]
    exact ⟨last, [], hReach, hCalm.reaches hReach, (List.append_nil _).symm,
      .inl ⟨hPending, rfl, rfl⟩⟩
  · obtain ⟨told, hAfter, hTelling⟩ := telling_visit plan id { last with pending := rest }
    rw [hWalk] at hEnd ⊢
    refine ⟨last, told, hReach, hCalm.reaches hReach, hAfter, .inr ⟨?_, hTelling, hEnd⟩⟩
    rw [hPending]
    exact nofun

/-- What a run says that ends at its cap. -/
def capError (plan : Plan σ) : String := "Max steps limit reached (" ++ toString plan.maxSteps ++ ")"

theorem stopAtCap_of_writable {p : Progress σ}
    (hCap : (Value.int plan.maxSteps).isWritable = true) :
    plan.stopAtCap p = .ended p plan.capError := by
  unfold stopAtCap capError
  rw [Value.display_int, if_pos hCap]

/-- A cap that is told ends the run with an error, and one that cannot be told breaks it off. -/
theorem stopAtCap_parts (plan : Plan σ) (p : Progress σ) : (plan.stopAtCap p).parts.1 = p ∧
    ((plan.stopAtCap p).parts.2 = .finished (some plan.capError) ∨
      (Value.int plan.maxSteps).isWritable = false ∧
        (plan.stopAtCap p).parts.2 = .brokenOff (.fault .integerTooLong)) := by
  cases hCap : (Value.int plan.maxSteps).isWritable with
  | true =>
      rw [stopAtCap_of_writable hCap]
      exact ⟨rfl, .inl rfl⟩
  | false =>
      unfold stopAtCap
      rw [Value.display_eq_error_iff.mpr ⟨hCap, rfl⟩]
      exact ⟨rfl, .inr ⟨rfl, rfl⟩⟩

/-- A walk stops at its cap where an item waits. -/
theorem Reaches.walk_of_capped {start p : Progress σ} (h : plan.Reaches start p)
    (hCap : plan.maxSteps ≤ p.executed) (hWaits : p.pending ≠ []) :
    plan.walk start = (plan.stopAtCap { p with pending := p.pending.tail }).parts := by
  obtain ⟨id, rest, hPending⟩ := List.exists_cons_of_ne_nil hWaits
  have hVisit : plan.visit id { p with pending := rest } =
      plan.stopAtCap { p with pending := rest } := by
    unfold visit
    exact if_pos hCap
  rw [h.walk_eq, Plan.walk_eq, next?_eq_some_iff.mpr ⟨id, rest, hPending, hVisit⟩, hPending]
  unfold stopAtCap
  cases (Value.int plan.maxSteps).display <;> rfl

/-- What stands behind a trace stands behind it among the last traces, when it is one of them. -/
theorem eq_append_of_not_mem {passed told earlier later : List Trace} {t : Trace}
    (h : passed ++ told = earlier ++ t :: later) (hNew : t ∉ passed) :
    ∃ front, told = front ++ t :: later := by
  rcases List.append_eq_append_iff.mp h with ⟨front, -, hTold⟩ | ⟨back, hPassed, hLater⟩
  · exact ⟨front, hTold⟩
  · cases back with
    | nil => exact ⟨[], hLater.symm⟩
    | cons u back =>
        obtain ⟨rfl, -⟩ := List.cons.inj hLater
        exact absurd (hPassed ▸ List.mem_append_right _ List.mem_cons_self) hNew

/-- Among the traces of one visit nothing stands behind a violation, and behind an error that ends
the run only the violation of its step. -/
theorem Telling.behind {executed : Nat} {front later : List Trace} {t : Trace} {ending : Ending}
    (h : plan.Telling executed (front ++ t :: later) ending) (hEnd : ∃ error, ending = .finished error) :
    (t.status = .scopeViolation → later = []) ∧
      (later = [] ∨ ∃ u, later = [u] ∧ u.tellsTokens = true ∧ u.stepId = t.stepId) := by
  obtain ⟨error, rfl⟩ := hEnd
  have hSole : ∀ {v : Trace}, front ++ t :: later = [v] → later = [] := by
    intro v hOne
    have hLength := congrArg List.length hOne
    simp only [List.length_append, List.length_cons, List.length_nil] at hLength
    exact List.eq_nil_of_length_eq_zero (by omega)
  generalize hTold : front ++ t :: later = told at h
  cases h with
  | passed => exact ⟨fun _ => hSole hTold, .inl (hSole hTold)⟩
  | capped => simp at hTold
  | failed => exact ⟨fun _ => hSole hTold, .inl (hSole hTold)⟩
  | late => exact ⟨fun _ => hSole hTold, .inl (hSole hTold)⟩
  | @exceeded v u _ hOwn hOver hTokens hStep =>
      cases front with
      | nil =>
          obtain ⟨rfl, rfl⟩ := List.cons.inj hTold
          exact ⟨fun hLate => absurd hLate hOwn, .inr ⟨u, rfl, hTokens, hStep⟩⟩
      | cons w front =>
          have hRest : later = [] := by
            have hLength := congrArg List.length hTold
            simp only [List.length_append, List.length_cons, List.length_nil] at hLength
            exact List.eq_nil_of_length_eq_zero (by omega)
          exact ⟨fun _ => hRest, .inl hRest⟩

theorem telling_of_mem_legs {p : Progress σ} {l : Leg σ} (h : l ∈ plan.legs p) :
    plan.Telling l.before.executed l.traces l.visited.parts.2 := by
  obtain ⟨_, _, -, -, -, hVisited⟩ := reaches_of_mem_legs h
  obtain ⟨told, hAfter, hTelling⟩ := telling_visit plan l.item l.before
  have hTraces : l.traces = told := Leg.gained_of_append (by rw [Leg.after, hVisited, hAfter])
  rw [hTraces, hVisited]
  exact hTelling

/-- Where errors do not end a run, it can only end at an error if that step has left a violation
too. -/
theorem Telling.violation_of_error {executed : Nat} {told : List Trace} {error : Option String}
    (h : plan.Telling executed told (.finished error)) (hAbort : plan.abortOnError = false)
    (hError : ∃ t ∈ told, t.status = .error) :
    error = none ∨ ∃ u ∈ told, u.status = .scopeViolation := by
  obtain ⟨t, hTold, hError⟩ := hError
  cases h with
  | passed => exact .inl rfl
  | capped => cases hTold
  | failed hEnds =>
      rw [hAbort] at hEnds
      cases hEnds
  | late hLate => exact .inr ⟨_, List.mem_singleton_self _, hLate⟩
  | exceeded _ hOver => exact .inr ⟨_, List.mem_cons_of_mem _ (List.mem_singleton_self _), hOver⟩

end Plan

namespace Engine

variable {e : Engine σ} {job : Job} {world : σ}

/-- A run comes to a point where so many steps have been called and an item still waits. -/
def WaitsAfter (e : Engine σ) (job : Job) (world : σ) (calls : Int) : Prop :=
  ∃ p, (e.opening job world).1.watched.Reaches (e.opening job world).2.watched p ∧
    calls ≤ p.world.2.length ∧ p.pending ≠ []

/-- As many steps are counted as have been called. -/
theorem executed_eq_of_reaches {p : Progress (σ × List Call)}
    (h : (e.opening job world).1.watched.Reaches (e.opening job world).2.watched p) :
    p.executed = p.world.2.length := by
  have hGuarded : (e.opening job world).1.Guarded (e.opening job world).2.ledger p := by
    refine h.keeps ⟨rfl, rfl, solvent_opening e job world⟩ ?_ ?_
    · intro p rest hPrior
      exact ⟨hPrior.counted, hPrior.written, hPrior.solvent⟩
    · intro id p hPrior hGoesOn
      exact hPrior.gain (Plan.gain_visit _ id p) hGoesOn
  exact hGuarded.counted

/-- A run stops at its cap when an item waits after so many calls. -/
theorem record_of_waitsAfter (h : e.WaitsAfter job world job.maxSteps) :
    (e.record job world).2 ≠ .finished none := by
  obtain ⟨p, hReach, hCalls, hWaits⟩ := h
  rw [← executed_eq_of_reaches hReach] at hCalls
  unfold record
  rw [hReach.walk_of_capped hCalls hWaits]
  obtain ⟨-, hTold | ⟨-, hUntold⟩⟩ := (e.opening job world).1.watched.stopAtCap_parts
    { p with pending := p.pending.tail }
  · rw [hTold]
    exact nofun
  · rw [hUntold]
    exact nofun

/-- What a run returns is what its walk has come to, also when the flow has no steps. -/
theorem finished_of_outcome {r : RunResult} (hOutcome : (e.run job world).1.outcome = .ok r) :
    ∃ error, (e.record job world).2 = .finished error ∧ r.success = error.isNone ∧
      r.traces = (e.record job world).1.traces := by
  by_cases hSteps : job.flow.steps = []
  · obtain ⟨ms, hEmpty⟩ := outcome_run_of_no_steps e world hSteps
    have hNone : (e.opening job world).2.pending = [] := pending_opening hSteps
    have hPending : (e.opening job world).2.watched.pending = [] := hNone
    rw [hEmpty] at hOutcome
    cases hOutcome
    refine ⟨none, ?_⟩
    rw [record, Plan.walk_of_nil hPending]
    exact ⟨rfl, rfl, rfl⟩
  · obtain ⟨error, ms, hEnd, -, rfl⟩ := record_of_outcome hSteps hOutcome
    exact ⟨error, hEnd, rfl, rfl⟩

/-- A run that has gone on through its whole queue has not failed. -/
theorem not_failing_of_finished (hEnd : (e.record job world).2 = .finished none) :
    ¬ e.WaitsAfter job world job.maxSteps ∧
      ∀ t ∈ (e.record job world).1.traces, t.status ≠ .scopeViolation ∧
        (t.status = .error → job.abortOnError = false) := by
  refine ⟨fun hWaits => record_of_waitsAfter hWaits hEnd, ?_⟩
  · have hBegin : (e.opening job world).1.watched.Calm (e.opening job world).2.watched :=
      Plan.calm_of_no_traces rfl
    obtain ⟨last, told, -, hCalm, hTraces, ⟨-, rfl, -⟩ | ⟨-, -, hOther⟩⟩ := Plan.telling_walk hBegin
    · rw [record, hTraces, List.append_nil]
      exact hCalm
    · exact absurd hEnd hOther

/-- What a run that fails leaves behind what it has gone on after. -/
theorem telling_record {message : String} (hEnd : (e.record job world).2 = .finished (some message)) :
    ∃ last told, (e.opening job world).1.watched.Reaches (e.opening job world).2.watched last ∧
      last.pending ≠ [] ∧ (e.opening job world).1.watched.Calm last ∧
      (e.record job world).1.traces = last.traces ++ told ∧
      (e.opening job world).1.watched.Telling last.executed told (.finished (some message)) := by
  have hBegin : (e.opening job world).1.watched.Calm (e.opening job world).2.watched :=
    Plan.calm_of_no_traces rfl
  obtain ⟨last, told, hReach, hCalm, hTraces, ⟨-, -, hNone⟩ | ⟨hWaits, hTelling, -⟩⟩ :=
    Plan.telling_walk hBegin
  · have hBoth := hNone.symm.trans hEnd
    cases hBoth
  · change (e.opening job world).1.watched.Telling last.executed told (e.record job world).2 at hTelling
    rw [hEnd] at hTelling
    exact ⟨last, told, hReach, hWaits, hCalm, hTraces, hTelling⟩

/-- A run fails exactly when an item waits at its cap, a trace tells a violation, or errors end runs
and a trace tells one. A violation is the last trace. Behind an error that ends the run stands at
most the violation of tokens by the same step. Where errors do not end runs, a step that leaves one
is followed by the next item, unless it has also left a violation. -/
theorem failure_classified {r : RunResult} (hOutcome : (e.run job world).1.outcome = .ok r) :
    (r.success = false ↔
      e.WaitsAfter job world job.maxSteps ∨ (∃ t ∈ r.traces, t.status = .scopeViolation) ∨
        (job.abortOnError = true ∧ ∃ t ∈ r.traces, t.status = .error)) ∧
    (∀ earlier t later, r.traces = earlier ++ t :: later →
      (t.status = .scopeViolation → later = []) ∧
      (job.abortOnError = true → t.status = .error →
        later = [] ∨ ∃ u, later = [u] ∧ u.tellsTokens = true ∧ u.stepId = t.stepId)) ∧
    (job.abortOnError = false → ∀ l ∈ e.visits job world, (∃ t ∈ l.traces, t.status = .error) →
      l.visited.parts.2 = .finished none ∨ ∃ u ∈ l.traces, u.status = .scopeViolation) := by
  obtain ⟨error, hEnd, hSuccess, hTraces⟩ := finished_of_outcome hOutcome
  rw [hSuccess, hTraces]
  cases error with
  | none =>
      obtain ⟨hWaits, hCalm⟩ := not_failing_of_finished hEnd
      refine ⟨⟨nofun, ?_⟩, ?_, fun _ l hLeg _ => .inl ((Plan.finished_walk hEnd).2 l hLeg)⟩
      · rintro (hCap | ⟨t, hTrace, hLate⟩ | ⟨hAbort, t, hTrace, hError⟩)
        · exact absurd hCap hWaits
        · exact absurd hLate (hCalm t hTrace).1
        · exact absurd ((hCalm t hTrace).2 hError) (by simp [hAbort])
      · intro earlier t later hSplit
        have hTrace : t ∈ (e.record job world).1.traces := by
          rw [hSplit]
          exact List.mem_append_right _ List.mem_cons_self
        refine ⟨fun hLate => absurd hLate (hCalm t hTrace).1, fun hAbort hError => ?_⟩
        exact absurd ((hCalm t hTrace).2 hError) (by simp [hAbort])
  | some message =>
      obtain ⟨last, told, hReach, hWaits, hCalm, hTold, hTelling⟩ := telling_record hEnd
      rw [hTold]
      refine ⟨⟨fun _ => ?_, fun _ => rfl⟩, ?_, ?_⟩
      · cases hTelling with
        | capped hCap =>
            rw [executed_eq_of_reaches hReach] at hCap
            exact .inl ⟨last, hReach, hCap, hWaits⟩
        | failed hAbort hError =>
            exact .inr (.inr ⟨hAbort, _, List.mem_append_right _ (List.mem_singleton_self _), hError⟩)
        | late hLate =>
            exact .inr (.inl ⟨_, List.mem_append_right _ (List.mem_singleton_self _), hLate⟩)
        | exceeded _ hOver => exact .inr (.inl ⟨_, by simp, hOver⟩)
      · intro earlier t later hSplit
        refine ⟨fun hLate => ?_, fun hAbort hError => ?_⟩
        · obtain ⟨front, rfl⟩ := Plan.eq_append_of_not_mem hSplit fun hPassed =>
            (hCalm t hPassed).1 hLate
          exact (hTelling.behind ⟨_, rfl⟩).1 hLate
        · obtain ⟨front, rfl⟩ := Plan.eq_append_of_not_mem hSplit fun hPassed => by
            have hGoing : job.abortOnError = false := (hCalm t hPassed).2 hError
            rw [hAbort] at hGoing
            cases hGoing
          exact (hTelling.behind ⟨_, rfl⟩).2
      · intro hAbort l hLeg hError
        have hOwn := Plan.telling_of_mem_legs hLeg
        rcases Plan.ending_of_mem_legs hLeg with hGoesOn | hLast
        · exact .inl hGoesOn
        · rw [hLast.trans hEnd] at hOwn ⊢
          exact .inr ((hOwn.violation_of_error hAbort hError).resolve_left nofun)

/-- An engine whose steps all fail and have spent two tokens. -/
def wasting : Engine Unit :=
  { listRouting with
    executors := fun _ => some fun _ _ _ => pure { spent 2 with error := some "broken" } }

/-- The error of a step ends its run, but the violation of its tokens stands behind it. -/
theorem wasted_tokens_fail : ∃ r, (wasting.run thrifty ()).1.outcome = .ok r ∧
    r.traces.map Trace.status = [.error, .scopeViolation] ∧ r.success = false := by
  have hSteps : thrifty.flow.steps ≠ [] := List.cons_ne_nil _ _
  have hVisit : ∃ p message,
      (wasting.opening thrifty ()).1.next? (wasting.opening thrifty ()).2 =
          some (.ended p message) ∧
        p.traces.map Trace.status = [.error, .scopeViolation] ∧ p.ledger.usage.total = 2 :=
    ⟨_, _, rfl, rfl, rfl⟩
  obtain ⟨p, message, hVisit, hTraces, hTotal⟩ := hVisit
  have hTold : p.isTold (some message) = true := by
    apply Progress.isTold_of_writable
    rw [hTotal]
    exact Value.isWritable_int_iff.mpr (by decide)
  have hOutcome : ∃ ms, (wasting.run thrifty ()).1.outcome =
      .ok (thrifty.result p (some message) ms) := by
    rw [outcome_run hSteps, Plan.walk_eq, hVisit]
    exact ⟨_, outcomeOf_of_told hTold _⟩
  obtain ⟨ms, hOutcome⟩ := hOutcome
  refine ⟨_, hOutcome, hTraces, (failure_classified hOutcome).1.mpr (.inr (.inl ?_))⟩
  have hLate : Status.scopeViolation ∈ p.traces.map Trace.status := by simp [hTraces]
  exact List.mem_map.mp hLate

end Engine

end StepFlow
