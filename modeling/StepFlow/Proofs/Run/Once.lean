import StepFlow.Proofs.Run.Snag
import StepFlow.Proofs.Run.Watch

/-! No step runs twice. A queue may hold an id many times, but a step is called only while the
ledger has no entry of it, and every call that is answered leaves one. So the calls of a run, its
ledger and its completed steps are one list, seen three times. -/
namespace StepFlow

variable {σ : Type}

/-- The ids of the traces of completed steps. -/
def completedIds (traces : List Trace) : List String :=
  (traces.filter fun t => t.status = .completed).map Trace.stepId

theorem completedSteps_result (job : Job) (p : Progress σ) (error : Option String) (ms : Float) :
    (job.result p error ms).completedSteps = completedIds p.traces := rfl

/-- The trace of a mere instant is that of no completed step. -/
theorem completedIds_append_instant {traces : List Trace} {id type : String} {status : Status}
    {now : Float} {error : Option String} {metadata : Value} (hStatus : status ≠ .completed) :
    completedIds (traces ++ [.instant id type status now error metadata]) = completedIds traces := by
  simp [completedIds, Trace.instant, hStatus]

/-- The trace of a call is that of a completed step or of none. -/
theorem completedIds_append_traceOf (traces : List Trace) (s : Step) (started completed : Float)
    (r : StepResult) :
    (completedIds (traces ++ [Plan.traceOf s started completed r])).Sublist
      (completedIds traces ++ [s.id]) := by
  cases hFailed : r.failed with
  | true => simp [completedIds, Plan.traceOf, hFailed]
  | false => simp [completedIds, Plan.traceOf, hFailed]

namespace Plan

/-- Answered calls against the ledger they leave behind: each is shown the ledger as it stands and
adds one entry, that of its step with what it came to. -/
inductive Logged (start : Ledger) : List Call → Ledger → Prop where
  | none : Logged start [] start
  | further {calls : List Call} {l : Ledger} {s : Step} {outcome : Except Fault StepResult}
      {started completed : Float} (hPrior : Logged start calls l) :
      Logged start (calls ++ [⟨s, l, outcome.mapError .fault⟩])
        { l with entries := l.entries ++ [entryOf s started completed (resultOf outcome)] }

/-- The calls in their order are the entries in theirs. -/
theorem Logged.stepIds_eq {start l : Ledger} {calls : List Call} (h : Logged start calls l) :
    l.stepIds = start.stepIds ++ calls.map fun c => c.step.id := by
  induction h with
  | none => simp
  | @further calls l s outcome started completed _ ih =>
      have hEntries : Ledger.stepIds { l with
          entries := l.entries ++ [entryOf s started completed (resultOf outcome)] } =
          l.stepIds ++ [s.id] := by simp [Ledger.stepIds, entryOf]
      rw [hEntries, ih]
      simp

/-- What the notes of a run say of its calls. A run that was cancelled has called one step more,
which was new and has no entry. -/
def Noted (start : Ledger) (p : Progress (σ × List Call)) : Ending → Prop
  | .brokenOff .cancelled => ∃ calls last, p.world.2 = calls ++ [last] ∧
      Logged start calls p.ledger ∧ last.ledger = p.ledger ∧ last.outcome = .error .cancelled ∧
      last.step.id ∉ p.ledger.stepIds
  | _ => Logged start p.world.2 p.ledger

/-- What a run keeps to from its begin to its end. -/
structure Kept (start : Ledger) (p : Progress (σ × List Call)) (ending : Ending) : Prop where
  noted : Noted start p ending
  once : p.ledger.stepIds.Nodup
  traced : (completedIds p.traces).Sublist p.ledger.stepIds

variable {plan : Plan σ} {start : Ledger} {p q : Progress (σ × List Call)}

/-- What makes no call and writes no entry keeps everything. -/
theorem Kept.quiet {ending : Ending} (hKept : Kept start p (.finished none))
    (hNotes : q.world.2 = p.world.2) (hLedger : q.ledger = p.ledger)
    (hTraces : completedIds q.traces = completedIds p.traces)
    (hGoing : ending ≠ .brokenOff .cancelled) : Kept start q ending := by
  have hNoted : Noted start q ending := by
    have hLogged : Logged start q.world.2 q.ledger := by
      rw [hNotes, hLedger]
      exact hKept.noted
    rcases ending with error | (f | _)
    · exact hLogged
    · exact hLogged
    · exact absurd rfl hGoing
  refine ⟨hNoted, ?_, ?_⟩
  · rw [hLedger]
    exact hKept.once
  · rw [hTraces, hLedger]
    exact hKept.traced

theorem Kept.afterFailure {error : String} (hKept : Kept start p (.finished none))
    (hNotes : q.world.2 = p.world.2) (hLedger : q.ledger = p.ledger)
    (hTraces : completedIds q.traces = completedIds p.traces) :
    Kept start (plan.watched.afterFailure q error).parts.1
      (plan.watched.afterFailure q error).parts.2 := by
  unfold Plan.afterFailure
  split
  · exact hKept.quiet hNotes hLedger hTraces nofun
  · exact hKept.quiet hNotes hLedger hTraces nofun

/-- The call of a watched executor is the one further note. -/
theorem watched_call {s : Step} {executor : Executor (σ × List Call)}
    {outcome : Except Halt StepResult} {world : σ × List Call}
    (hServed : plan.watched.executors s.type = some executor)
    (hCall : plan.watched.call executor s q = (outcome, world)) :
    world.2 = q.world.2 ++ [⟨s, q.ledger, outcome⟩] := by
  obtain ⟨plain, -, rfl⟩ := Option.map_eq_some_iff.mp hServed
  change (((plain s q.ledger plan.budget).perform _).1, (_, q.world.2 ++ [⟨s, q.ledger, _⟩])) =
    (outcome, world) at hCall
  cases hCall
  rfl

/-- Reading the clock notes nothing. -/
theorem watched_checkTime {v : Except Fault (Option Violation)}
    (h : plan.watched.checkTime p = (v, q)) : q.world.2 = p.world.2 := by
  unfold checkTime at h
  split at h
  · cases h
    rfl
  · cases h
    rfl

theorem Kept.timely {v : Except Fault (Option Violation)} (hKept : Kept start p (.finished none))
    (hTime : plan.watched.checkTime p = (v, q)) : Kept start q (.finished none) := by
  have hRead := checkTime_eq hTime
  refine hKept.quiet (watched_checkTime hTime) ?_ ?_ nofun
  · rw [hRead]
  · rw [hRead]

/-- A cleared step has no entry yet. -/
theorem Cleared.not_mem_stepIds {id : String} {s : Step} (hCleared : plan.watched.Cleared id p s q) :
    s.id ∉ q.ledger.stepIds := by
  rw [← Ledger.has_iff_mem, hCleared.fresh_after]
  simp

/-- An answered call with its entry and its trace keeps everything. -/
theorem Kept.settled {id : String} {s : Step} {executor : Executor (σ × List Call)}
    {outcome : Except Fault StepResult} {world : σ × List Call}
    (hKept : Kept start p (.finished none)) (hCleared : plan.watched.Cleared id p s q)
    (hServed : plan.watched.executors s.type = some executor)
    (hCall : plan.watched.call executor s q = (outcome.mapError .fault, world)) :
    Kept start (plan.watched.settled s q world (resultOf outcome)) (.finished none) := by
  have hBefore := hKept.timely hCleared.timely
  have hIds : (plan.watched.settled s q world (resultOf outcome)).ledger.stepIds =
      q.ledger.stepIds ++ [s.id] := by
    simp [Plan.settled, Ledger.stepIds, entryOf]
  refine ⟨?_, ?_, ?_⟩
  · change Logged start world.2 _
    rw [watched_call hServed hCall]
    exact .further hBefore.noted
  · rw [hIds]
    refine List.nodup_append.mpr ⟨hBefore.once, by simp, ?_⟩
    intro id hId other hOther hSame
    rw [List.mem_singleton] at hOther
    rw [hSame, hOther] at hId
    exact hCleared.not_mem_stepIds hId
  · rw [hIds]
    refine (completedIds_append_traceOf _ _ _ _ _).trans ?_
    exact hBefore.traced.append (List.Sublist.refl _)

/-- What follows on a written result keeps everything. -/
theorem Settling.kept {s : Step} {r : StepResult} {v : Visited (σ × List Call)}
    (h : plan.watched.Settling s r q v) (hKept : Kept start q (.finished none)) :
    Kept start v.parts.1 v.parts.2 := by
  have hBranched : ∀ target, (plan.watched.branched s q target).world.2 = q.world.2 ∧
      (plan.watched.branched s q target).ledger = q.ledger ∧
      (plan.watched.branched s q target).traces = q.traces := by
    intro target
    cases target with
    | none => exact ⟨rfl, rfl, rfl⟩
    | some id => exact ⟨rfl, rfl, rfl⟩
  cases h with
  | uncounted => exact hKept.quiet rfl rfl rfl nofun
  | @exceeded v =>
      refine hKept.quiet rfl rfl ?_ nofun
      simp only [Visited.parts, Progress.withViolation_traces]
      exact completedIds_append_instant nofun
  | astray => exact hKept.quiet rfl rfl rfl nofun
  | @aborted target =>
      obtain ⟨hNotes, hLedger, hTraces⟩ := hBranched target
      exact hKept.quiet hNotes hLedger (by simp only [Visited.parts, hTraces]) nofun
  | @continued target =>
      obtain ⟨hNotes, hLedger, hTraces⟩ := hBranched target
      exact hKept.quiet hNotes hLedger (by simp only [Visited.parts, hTraces]) nofun

/-- Every turn keeps everything. -/
theorem Turn.kept {id : String} {v : Visited (σ × List Call)} (h : plan.watched.Turn id p v)
    (hKept : Kept start p (.finished none)) : Kept start v.parts.1 v.parts.2 := by
  cases h with
  | capped => exact hKept.quiet rfl rfl rfl nofun
  | untold => exact hKept.quiet rfl rfl rfl nofun
  | unknown =>
      refine hKept.afterFailure rfl rfl ?_
      rw [Progress.withFailure_traces]
      exact completedIds_append_instant nofun
  | again =>
      refine hKept.quiet rfl rfl ?_ nofun
      exact completedIds_append_instant nofun
  | clockless _ hTime => exact (hKept.timely hTime).quiet rfl rfl rfl nofun
  | late _ hTime =>
      refine (hKept.timely hTime).quiet rfl rfl ?_ nofun
      exact completedIds_append_instant nofun
  | undecided _ hTime => exact (hKept.timely hTime).quiet rfl rfl rfl nofun
  | skipped _ hTime =>
      refine (hKept.timely hTime).quiet rfl rfl ?_ nofun
      exact completedIds_append_instant nofun
  | unserved hCleared =>
      refine (hKept.timely hCleared.timely).afterFailure rfl rfl ?_
      rw [Progress.withFailure_traces]
      exact completedIds_append_instant nofun
  | @cancelled s q executor world hCleared hServed hCall =>
      have hBefore := hKept.timely hCleared.timely
      exact ⟨⟨q.world.2, ⟨s, q.ledger, .error .cancelled⟩, watched_call hServed hCall,
        hBefore.noted, rfl, rfl, hCleared.not_mem_stepIds⟩, hBefore.once, hBefore.traced⟩
  | answered hCleared hServed hCall =>
      exact (settling_afterResult _ _ _ _).kept (hKept.settled hCleared hServed hCall)

/-- A whole walk keeps everything. -/
theorem Kept.walk (hKept : Kept start p (.finished none)) :
    Kept start (plan.watched.walk p).1 (plan.watched.walk p).2 := by
  apply walk_preserves (Kept start) hKept
  intro p id rest hPrior _
  have hPopped : Kept start { p with pending := rest } (.finished none) :=
    hPrior.quiet rfl rfl rfl nofun
  exact (turn_visit _ _ _).kept hPopped

/-- No call is repeated, the one that was cancelled included. -/
theorem Kept.calls_nodup {ending : Ending} (h : Kept start p ending) (hStart : start.entries = []) :
    (p.world.2.map fun c => c.step.id).Nodup := by
  have hNone : start.stepIds = [] := by simp [Ledger.stepIds, hStart]
  have hLogged : Logged start p.world.2 p.ledger → (p.world.2.map fun c => c.step.id).Nodup := by
    intro hLogged
    have hOnce := h.once
    rw [hLogged.stepIds_eq, hNone, List.nil_append] at hOnce
    exact hOnce
  have hNoted := h.noted
  rcases ending with error | (f | _)
  · exact hLogged hNoted
  · exact hLogged hNoted
  · obtain ⟨calls, last, hCalls, hAnswered, -, -, hNew⟩ := hNoted
    have hOnce := h.once
    rw [hAnswered.stepIds_eq, hNone, List.nil_append] at hOnce hNew
    rw [hCalls, List.map_append]
    refine List.nodup_append.mpr ⟨hOnce, by simp, ?_⟩
    intro id hId other hOther hSame
    simp only [List.map_cons, List.map_nil, List.mem_singleton] at hOther
    rw [hSame, hOther] at hId
    exact hNew hId

end Plan

namespace Engine

/-- The walk of a run with notes of its calls. -/
def record (e : Engine σ) (job : Job) (world : σ) : Progress (σ × List Call) × Plan.Ending :=
  (e.opening job world).1.watched.walk (e.opening job world).2.watched

/-- What a run says of its steps at its end, by what stands on its ledger. -/
theorem outcome_of_kept {e : Engine σ} {job : Job} {world : σ} {l : Ledger}
    {p : Progress (σ × List Call)} {ending : Plan.Ending}
    (hWalk : (e.opening job world).1.walk (e.opening job world).2 = (p.unwatched, ending))
    (hKept : Plan.Kept l p ending) :
    match (e.run job world).1.outcome with
    | .ok r => r.completedSteps.Nodup ∧ r.completedSteps.Sublist p.ledger.stepIds
    | .error why => ∀ id, why ≠ .fault (.alreadyWritten id) := by
  by_cases hSteps : job.flow.steps = []
  · obtain ⟨ms, hOutcome⟩ := outcome_run_of_no_steps e world hSteps
    rw [hOutcome]
    exact ⟨List.nodup_nil, List.nil_sublist _⟩
  · rw [outcome_run hSteps, hWalk]
    cases ending with
    | finished error =>
        cases hTold : p.unwatched.isTold error with
        | true =>
            rw [outcomeOf_of_told hTold]
            simp only [completedSteps_result]
            exact ⟨hKept.once.sublist hKept.traced, hKept.traced⟩
        | false =>
            rw [outcomeOf_of_untold hTold]
            exact nofun
    | brokenOff why =>
        intro id hWhy
        subst hWhy
        obtain ⟨_, _, _, -, -, hSnag⟩ := Plan.brokenOff_walk_iff.mp ⟨_, hWalk⟩
        rcases hSnag.fault with h | h | h | h | ⟨_, h⟩
        all_goals cases h

/-- Nothing is called twice in a run, and the ledger gets one entry for each answered call. So no
entry is ever refused, and the steps that a result names as completed are among those of the
ledger, each once and in their order. -/
theorem steps_run_once (e : Engine σ) (job : Job) (world : σ) :
    let (plan, start) := e.opening job world
    let (p, ending) := e.record job world
    plan.walk start = (p.unwatched, ending) ∧
      (p.world.2.map fun c => c.step.id).Nodup ∧
      Plan.Noted start.ledger p ending ∧
      p.ledger.stepIds.Nodup ∧
      match (e.run job world).1.outcome with
      | .ok r => r.completedSteps.Nodup ∧ r.completedSteps.Sublist p.ledger.stepIds
      | .error why => ∀ id, why ≠ .fault (.alreadyWritten id) := by
  have hWalk : (e.opening job world).1.walk (e.opening job world).2 =
      ((e.record job world).1.unwatched, (e.record job world).2) :=
    Plan.walk_unwatched (e.opening job world).1 (e.opening job world).2.watched
  have hBegin : Plan.Kept (e.opening job world).2.ledger (e.opening job world).2.watched
      (.finished none) := ⟨.none, List.nodup_nil, List.Sublist.refl _⟩
  have hKept : Plan.Kept (e.opening job world).2.ledger (e.record job world).1
      (e.record job world).2 := hBegin.walk
  exact ⟨hWalk, hKept.calls_nodup rfl, hKept.noted, hKept.once, outcome_of_kept hWalk hKept⟩

end Engine

end StepFlow
