import Mathlib.Algebra.Ring.Int.Defs
import StepFlow.Proofs.Run.Escape
import StepFlow.Proofs.Run.Gain

/-! The result of a run against its own traces. The entries of the snapshot, the sum of the usages
and the output of the run are kept apart from the traces, and yet they are what the traces say. -/
namespace StepFlow

variable {σ : Type}

/-- The sum field by field. -/
theorem Usage.sum_eq (us : List Usage) :
    Usage.sum us =
      ⟨(us.map Usage.prompt).sum, (us.map Usage.completion).sum, (us.map Usage.total).sum⟩ := by
  induction us with
  | nil => rfl
  | cons u us ih =>
      rw [← List.singleton_append, Usage.sum_append, ih]
      simp [Usage.sum, Usage.add, Usage.none]

namespace Trace

/-- The entry that a trace of an executor stands for. -/
def entry (t : Trace) : Entry :=
  ⟨t.stepId, t.type, t.output, .real t.startedAt, .real t.completedAt, t.usage, t.error⟩

/-- Whether a trace tells of an error: an empty message is none. -/
def tellsError (t : Trace) : Prop := ∃ message, t.error = some message ∧ message ≠ ""

/-- A trace without output and usage. -/
def Bare (t : Trace) : Prop := t.status ≠ .completed ∧ t.usage = none

end Trace

/-- The output of the last completed step among some traces, null when there is none. -/
def lastOutput (traces : List Trace) : Value :=
  match (traces.filter fun t => t.status = .completed).getLast? with
  | some t => t.output
  | none => .null

/-- Only the traces of completed steps tell an output. -/
theorem lastOutput_append_other {ts others : List Trace} (h : ∀ t ∈ others, t.status ≠ .completed) :
    lastOutput (ts ++ others) = lastOutput ts := by
  have hNone : others.filter (fun t => t.status = .completed) = [] := by
    rw [List.filter_eq_nil_iff]
    intro t hOther
    simp [h t hOther]
  rw [lastOutput, List.filter_append, hNone, List.append_nil]
  rfl

theorem lastOutput_append_completed {ts : List Trace} {t : Trace} (h : t.status = .completed) :
    lastOutput (ts ++ [t]) = t.output := by
  have hLast : [t].filter (fun t => t.status = .completed) = [t] := by simp [h]
  rw [lastOutput, List.filter_append, hLast, List.getLast?_concat]

theorem usages_of_bare {told : List Trace} (h : ∀ t ∈ told, t.Bare) :
    told.filterMap Trace.usage = [] := by
  rw [List.filterMap_eq_nil_iff]
  exact fun t hTold => (h t hTold).2

namespace Leg

/-- The traces of the calls of a leg: a call is traced first, and its check behind it. -/
def answers (l : Leg (σ × List Call)) : List Trace := l.traces.take l.calls.length

end Leg

namespace Plan

variable {plan : Plan σ}

theorem Passed.bare {id : String} {told : List Trace} {ending : Ending}
    (h : plan.Passed id told ending) : ∀ t ∈ told, t.Bare := by
  intro t hTold
  rcases h with ⟨rfl, -⟩ | ⟨status, now, error, metadata, rfl, hStatus, -⟩
  · cases hTold
  · rw [List.mem_singleton.mp hTold]
    exact ⟨hStatus, rfl⟩

theorem Audited.bare {c : Call} {told : List Trace} {ending : Ending}
    (h : plan.Audited c told ending) : ∀ t ∈ told, t.Bare := by
  intro t hTold
  obtain ⟨now, message, rfl⟩ := h.told t hTold
  exact ⟨nofun, rfl⟩

/-- The usages on the ledger are those of the traces, and the last output is that of the last
completed trace. -/
structure Agrees (p : Progress σ) : Prop where
  usages : p.ledger.entries.filterMap Entry.usage = p.traces.filterMap Trace.usage
  output : p.lastOutput = lastOutput p.traces

theorem Agrees.gain {id : String} {p : Progress (σ × List Call)} {v : Visited (σ × List Call)}
    (hAgrees : Agrees p) (h : plan.Gain id p v) : Agrees v.parts.1 := by
  cases h with
  | quiet world told events hAfter hTold =>
      rw [hAfter]
      refine ⟨?_, ?_⟩
      · rw [List.filterMap_append, usages_of_bare hTold.bare, List.append_nil]
        exact hAgrees.usages
      · rw [lastOutput_append_other fun t hTrace => (hTold.bare t hTrace).1]
        exact hAgrees.output
  | @answered s q c outcome world started completed told events hCleared hCall hAfter hTold =>
      rw [hAfter]
      refine ⟨?_, ?_⟩
      · change (p.ledger.entries ++ [_]).filterMap Entry.usage = (p.traces ++ _ :: told).filterMap _
        rw [List.append_cons p.traces]
        simp only [List.filterMap_append, usages_of_bare hTold.bare, List.append_nil, hAgrees.usages]
        rfl
      · change (if (resultOf outcome).failed then p.lastOutput else (resultOf outcome).output) =
          lastOutput (p.traces ++ traceOf s started completed (resultOf outcome) :: told)
        rw [List.append_cons, lastOutput_append_other fun t hTrace => (hTold.bare t hTrace).1]
        -- the engine keeps the last output by the error of the result, the traces by their status
        cases hFailed : (resultOf outcome).failed with
        | true =>
            rw [lastOutput_append_other (by simp [traceOf, hFailed])]
            exact hAgrees.output
        | false =>
            rw [lastOutput_append_completed (by simp [traceOf, hFailed])]
            rfl
  | cancelled world hCleared hAfter =>
      rw [hAfter]
      exact ⟨hAgrees.usages, hAgrees.output⟩

theorem Agrees.walk {p : Progress (σ × List Call)} (h : Agrees p) :
    Agrees (plan.watched.walk p).1 := by
  apply walk_preserves (fun p _ => Agrees p) h
  intro p id rest hPrior _
  have hTaken : Agrees { p with pending := rest } := ⟨hPrior.usages, hPrior.output⟩
  exact hTaken.gain (gain_visit plan id _)

/-- A leg whose call is answered leaves a trace and an entry of it, and other legs leave neither. -/
theorem Adds.answers_eq {l : Leg (σ × List Call)} (h : plan.Adds l) :
    (l.answers = [] ∧ l.entries = [] ∧
        (l.calls = [] ∨ l.visited.parts.2 = .brokenOff .cancelled)) ∨
      ∃ s outcome started completed,
        l.calls = [⟨s, l.before.ledger, outcome.mapError .fault⟩] ∧
        l.answers = [traceOf s started completed (resultOf outcome)] ∧
        l.entries = [entryOf s started completed (resultOf outcome)] := by
  cases h with
  | quiet hCalls hEntries =>
      refine .inl ⟨?_, hEntries, .inl hCalls⟩
      rw [Leg.answers, hCalls]
      rfl
  | @answered s q c outcome started completed told hCleared hCall hCalls hEntries hQueued hTraces =>
      subst hCall
      refine .inr ⟨s, outcome, started, completed, hCalls, ?_, hEntries⟩
      rw [Leg.answers, hCalls, hTraces]
      rfl
  | cancelled hCleared hCalls hEntries hQueued hTraces hEnd =>
      refine .inl ⟨?_, hEntries, .inr hEnd⟩
      rw [Leg.answers, hTraces, List.take_nil]

/-- The entries of a leg are those of its answers. -/
theorem Adds.entries_eq {l : Leg (σ × List Call)} (h : plan.Adds l) :
    l.entries = l.answers.map Trace.entry := by
  rcases h.answers_eq with ⟨hNone, hEntries, -⟩ | ⟨s, outcome, started, completed, -, hOne, hEntries⟩
  · rw [hNone, hEntries]
    rfl
  · rw [hOne, hEntries]
    rfl

/-- Unless a call is cancelled, it has a trace that tells its step and its output. -/
theorem Adds.answers_calls {l : Leg (σ × List Call)} (h : plan.Adds l)
    (hEnd : l.visited.parts.2 ≠ .brokenOff .cancelled) :
    l.answers.map (fun t => (t.stepId, t.type, t.output)) =
      l.calls.map fun c => (c.step.id, c.step.type, c.output) := by
  rcases h.answers_eq with ⟨hNone, -, hCalls⟩ | ⟨s, outcome, started, completed, hCalls, hOne, -⟩
  · rcases hCalls with hCalls | hCancelled
    · rw [hNone, hCalls]
      rfl
    · exact absurd hCancelled hEnd
  · rw [hOne, hCalls, List.map_singleton, List.map_singleton, output_of_call]
    rfl

/-- The trace of a call is that of an error exactly when it tells one. -/
theorem Adds.answers_status {l : Leg (σ × List Call)} (h : plan.Adds l) :
    ∀ t ∈ l.answers,
      (t.status = .error ↔ t.tellsError) ∧ (t.status = .completed ↔ ¬ t.tellsError) := by
  intro t hAnswer
  rcases h.answers_eq with ⟨hNone, -⟩ | ⟨s, outcome, started, completed, -, hOne, -⟩
  · rw [hNone] at hAnswer
    cases hAnswer
  · rw [hOne, List.mem_singleton] at hAnswer
    subst hAnswer
    have hTells : (traceOf s started completed (resultOf outcome)).tellsError ↔
        (resultOf outcome).failed = true := (StepResult.failed_iff _).symm
    rw [hTells]
    cases hFailed : (resultOf outcome).failed with
    | true => simp [traceOf, hFailed]
    | false => simp [traceOf, hFailed]

end Plan

namespace Engine

variable {e : Engine σ} {job : Job} {world : σ}

/-- The traces that the executors of a run have left. -/
def answers (e : Engine σ) (job : Job) (world : σ) : List Trace :=
  (e.visits job world).flatMap Leg.answers

theorem answers_sublist (e : Engine σ) (job : Job) (world : σ) :
    (e.answers job world).Sublist (e.record job world).1.traces := by
  rw [traces_record]
  exact List.Sublist.flatMap_right _ fun l _ => List.take_sublist _ _

theorem entries_eq_answers (e : Engine σ) (job : Job) (world : σ) :
    (e.record job world).1.ledger.entries = (e.answers job world).map Trace.entry := by
  rw [entries_record, answers, List.map_flatMap]
  exact List.flatMap_congr fun l hLeg => (Plan.adds_of_mem_legs hLeg).entries_eq

/-- When nothing was cancelled, the calls of a run are those that left a trace. -/
theorem answers_eq_calls {error : Option String} (hEnd : (e.record job world).2 = .finished error) :
    (e.answers job world).map (fun t => (t.stepId, t.type, t.output)) =
      (e.record job world).1.world.2.map fun c => (c.step.id, c.step.type, c.output) := by
  rw [calls_record, answers, List.map_flatMap, List.map_flatMap]
  refine List.flatMap_congr ?_
  intro l hLeg
  apply (Plan.adds_of_mem_legs hLeg).answers_calls
  intro hCancelled
  rcases Plan.ending_of_mem_legs hLeg with hGoesOn | hLast
  · rw [hCancelled] at hGoesOn
    cases hGoesOn
  · have hBoth := (hCancelled.symm.trans hLast).trans hEnd
    cases hBoth

theorem snapshot_record (e : Engine σ) (job : Job) (world : σ) :
    (e.record job world).1.ledger.snapshot =
      .map [("trigger", job.trigger.dump .stored),
        ("globalMeta", .map (job.metadata e.host.accountId)),
        ("entries", .list ((e.answers job world).map fun t => t.entry.dump))] := by
  obtain ⟨hTrigger, hMetadata⟩ :=
    Plan.frame_walk (e.opening job world).1 (e.opening job world).2.watched
  change (e.record job world).1.ledger.trigger = job.trigger at hTrigger
  change (e.record job world).1.ledger.metadata = job.metadata e.host.accountId at hMetadata
  rw [Ledger.snapshot, hTrigger, hMetadata, entries_eq_answers, List.map_map]
  rfl

/-- The result of a run agrees with its own traces. Its snapshot has one entry for each trace that
an executor has left, in their order and with the same data; its usage is the sum over all traces;
its output is that of the last completed trace; an executor's trace is that of an error exactly when
it tells one; and the run succeeds exactly when it has no error. -/
theorem result_agrees {r : RunResult} (hSteps : job.flow.steps ≠ [])
    (hOutcome : (e.run job world).1.outcome = .ok r) :
    let answers := e.answers job world
    let usages := r.traces.filterMap Trace.usage
    answers.Sublist r.traces ∧
    answers.map (fun t => (t.stepId, t.type, t.output)) =
      (e.record job world).1.world.2.map (fun c => (c.step.id, c.step.type, c.output)) ∧
    r.snapshot =
      .map [("trigger", job.trigger.dump .stored),
        ("globalMeta", .map (job.metadata e.host.accountId)),
        ("entries", .list (answers.map fun t => t.entry.dump))] ∧
    r.usage =
      ⟨(usages.map Usage.prompt).sum, (usages.map Usage.completion).sum,
        (usages.map Usage.total).sum⟩ ∧
    r.output = lastOutput r.traces ∧
    (∀ t ∈ answers,
      (t.status = .error ↔ t.tellsError) ∧ (t.status = .completed ↔ ¬ t.tellsError)) ∧
    (r.success = true ↔ r.error = none) := by
  obtain ⟨error, ms, hEnd, -, rfl⟩ := record_of_outcome hSteps hOutcome
  have hBegin : Plan.Agrees (e.opening job world).2.watched := ⟨rfl, rfl⟩
  have hAgrees : Plan.Agrees (e.record job world).1 := hBegin.walk
  refine ⟨answers_sublist e job world, answers_eq_calls hEnd, snapshot_record e job world, ?_,
    hAgrees.output, ?_, ?_⟩
  · change Usage.sum ((e.record job world).1.ledger.entries.filterMap Entry.usage) = _
    rw [hAgrees.usages, Usage.sum_eq]
    rfl
  · intro t hAnswer
    obtain ⟨l, hLeg, hAnswer⟩ := List.mem_flatMap.mp hAnswer
    exact (Plan.adds_of_mem_legs hLeg).answers_status t hAnswer
  · exact Option.isNone_iff_eq_none

/-- An engine of two types of steps: one counts three tokens, the other fails. -/
def counting : Engine Unit :=
  { listRouting with
    executors := fun type =>
      if type = "count" then
        some fun _ _ _ => pure ⟨.text "counted", some ⟨1, 2, 3⟩, none, .null, .null⟩
      else if type = "fail" then some fun _ _ _ => Act.fail (.raised "broken")
      else none }

/-- A run of a step that counts and a step that fails. -/
def countedOnce : Job :=
  { soleRouter with
    flow :=
      ⟨[⟨"first", "count", [], none, none, .unset, []⟩,
        ⟨"second", "fail", [], none, none, .unset, []⟩], none⟩ }

theorem counted_once_agrees : ∃ r, (counting.run countedOnce ()).1.outcome = .ok r ∧
    r.traces.map Trace.status = [.completed, .error] ∧ r.output = lastOutput r.traces ∧
    (∀ t ∈ counting.answers countedOnce (), t.status = .error ↔ t.tellsError) := by
  have hSteps : countedOnce.flow.steps ≠ [] := List.cons_ne_nil _ _
  have hWalk : ∃ p, (counting.opening countedOnce ()).1.walk (counting.opening countedOnce ()).2 =
        (p, .finished (some "broken")) ∧
      p.traces.map Trace.status = [.completed, .error] ∧ p.ledger.usage.total = 3 := by
    have hVisits : ∃ q p,
        (counting.opening countedOnce ()).1.next? (counting.opening countedOnce ()).2 =
          some (.goesOn q) ∧
        (counting.opening countedOnce ()).1.next? q = some (.ended p "broken") ∧
        p.traces.map Trace.status = [.completed, .error] ∧ p.ledger.usage.total = 3 :=
      ⟨_, _, rfl, rfl, rfl, rfl⟩
    obtain ⟨q, p, hFirst, hSecond, hLast⟩ := hVisits
    refine ⟨p, ?_, hLast⟩
    rw [Plan.walk_eq, hFirst]
    simp only
    rw [Plan.walk_eq, hSecond]
  obtain ⟨p, hWalk, hTraces, hTotal⟩ := hWalk
  have hTold : p.isTold (some "broken") = true := by
    apply Progress.isTold_of_writable
    rw [hTotal]
    exact Value.isWritable_int_iff.mpr (by decide)
  have hOutcome : ∃ ms, (counting.run countedOnce ()).1.outcome =
      .ok (countedOnce.result p (some "broken") ms) := by
    rw [outcome_run hSteps, hWalk, outcomeOf_of_told hTold]
    exact ⟨_, rfl⟩
  obtain ⟨ms, hOutcome⟩ := hOutcome
  obtain ⟨-, -, -, -, hOutput, hStatus, -⟩ := result_agrees hSteps hOutcome
  exact ⟨_, hOutcome, hTraces, hOutput, fun t hAnswer => (hStatus t hAnswer).1⟩

end Engine

end StepFlow
