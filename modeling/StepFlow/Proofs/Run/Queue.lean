import StepFlow.Proofs.Run.Escape
import StepFlow.Proofs.Run.Gain

/-! The order of traces. Each item that a run takes leaves one trace of its own, so the ids of the
traces are those of the queue as far as it was walked: the items it began with, and behind them the
branch of each call. Only the trace of a broken limit of tokens stands beside the trace of its
step. -/
namespace StepFlow

variable {σ : Type}

/-- The traces of items: all but those of a broken limit of tokens. -/
def itemTraces (traces : List Trace) : List Trace := traces.filter fun t => !t.tellsTokens

theorem itemTraces_append (ts us : List Trace) :
    itemTraces (ts ++ us) = itemTraces ts ++ itemTraces us := List.filter_append ..

theorem itemTraces_singleton {t : Trace} (h : t.tellsTokens = false) : itemTraces [t] = [t] := by
  simp [itemTraces, h]

namespace Plan

variable {plan : Plan σ}

theorem tellsTokens_overspent (id type : String) (now : Float) (message : String) :
    (overspent id type now message).tellsTokens = true := rfl

/-- The trace of an executor tells of no violation. -/
theorem tellsTokens_traceOf (s : Step) (started completed : Float) (r : StepResult) :
    (traceOf s started completed r).tellsTokens = false := by
  unfold Trace.tellsTokens Trace.violation? traceOf
  cases r.failed <;> rfl

theorem itemTraces_of_audited {c : Call} {told : List Trace} {ending : Ending}
    (h : plan.Audited c told ending) : itemTraces told = [] := by
  rw [itemTraces, List.filter_eq_nil_iff]
  intro t hTold
  obtain ⟨now, message, rfl⟩ := h.told t hTold
  simp [tellsTokens_overspent]

/-- A leg leaves no trace of an item but its own, and one of that if the walk goes on. -/
theorem Adds.itemTraces {l : Leg (σ × List Call)} (h : plan.Adds l) :
    (itemTraces l.traces).map Trace.stepId <+: [l.item] ∧
      (l.visited.parts.2 = .finished none →
        (itemTraces l.traces).map Trace.stepId = [l.item]) := by
  cases h with
  | quiet hCalls hEntries hQueued hTold =>
      rcases hTold with ⟨hNone, hEnd⟩ | ⟨status, now, error, metadata, hOne, -, hTells, -⟩
      · rw [hNone]
        exact ⟨List.nil_prefix, fun hGoesOn => absurd hGoesOn hEnd⟩
      · rw [hOne, itemTraces_singleton hTells]
        exact ⟨List.prefix_rfl, fun _ => rfl⟩
  | answered started completed told hCleared hCall hCalls hEntries hQueued hTraces hTold =>
      rw [hTraces, ← List.singleton_append, itemTraces_append, itemTraces_of_audited hTold,
        itemTraces_singleton (tellsTokens_traceOf _ _ _ _), ← id_of_step? hCleared.step]
      exact ⟨List.prefix_rfl, fun _ => rfl⟩
  | cancelled hCleared hCalls hEntries hQueued hTraces hEnd =>
      rw [hTraces, hEnd]
      exact ⟨List.nil_prefix, nofun⟩

/-- What a leg queues are the branches of its calls. -/
theorem Adds.queued_eq {l : Leg (σ × List Call)} (h : plan.Adds l) :
    l.queued = l.calls.flatMap plan.branchOf := by
  cases h with
  | quiet hCalls hEntries hQueued => rw [hCalls, hQueued, List.flatMap_nil]
  | answered started completed told hCleared hCall hCalls hEntries hQueued =>
      rw [hCalls, hQueued, List.flatMap_singleton]
  | cancelled hCleared hCalls hEntries hQueued =>
      have hNone : ∀ s l, plan.target? ⟨s, l, .error .cancelled⟩ = none := by
        intro s l
        simp [target?, Call.named?]
      rw [hCalls, hQueued, List.flatMap_singleton, branchOf_of_no_target (hNone _ _)]

/-- The items of the traces of a walk are those of its legs, unless the last leg ends the run and
leaves no trace. -/
theorem itemTraces_legs (plan : Plan σ) (p : Progress (σ × List Call)) :
    ((plan.watched.legs p).flatMap fun l => (itemTraces l.traces).map Trace.stepId) <+:
        (plan.watched.legs p).map Leg.item ∧
      ((plan.watched.walk p).2 = .finished none →
        ((plan.watched.legs p).flatMap fun l => (itemTraces l.traces).map Trace.stepId) =
          (plan.watched.legs p).map Leg.item) := by
  have hOwn : ∀ (p : Progress (σ × List Call)) id rest v,
      plan.watched.visit id { p with pending := rest } = v →
        plan.Adds ⟨id, { p with pending := rest }, v⟩ := by
    rintro p id rest v rfl
    exact (gain_visit plan id _).adds
  fun_induction legs plan.watched p with
  | case1 p hPending => exact ⟨List.prefix_rfl, fun _ => rfl⟩
  | case2 p id rest hPending q hVisit ih =>
      rw [walk_eq, next?, hPending]
      simp only [hVisit, List.flatMap_cons, List.map_cons]
      rw [(hOwn p id rest _ hVisit).itemTraces.2 rfl, List.singleton_append]
      exact ⟨List.cons_prefix_cons.mpr ⟨rfl, ih.1⟩, fun hEnd => congrArg _ (ih.2 hEnd)⟩
  | case3 p id rest hPending q error hVisit =>
      rw [walk_eq, next?, hPending]
      simp only [hVisit, List.flatMap_singleton, List.map_cons, List.map_nil]
      refine ⟨(hOwn p id rest _ hVisit).itemTraces.1, fun hEnd => ?_⟩
      cases hEnd
  | case4 p id rest hPending q why hVisit =>
      rw [walk_eq, next?, hPending]
      simp only [hVisit, List.flatMap_singleton, List.map_cons, List.map_nil]
      refine ⟨(hOwn p id rest _ hVisit).itemTraces.1, fun hEnd => ?_⟩
      cases hEnd

/-- Every trace has the type that its item is traced with. -/
theorem Adds.typed {l : Leg (σ × List Call)} (h : plan.Adds l) :
    ∀ t ∈ l.traces, t.type = plan.typeOf t.stepId := by
  intro t hTrace
  cases h with
  | quiet hCalls hEntries hQueued hTold =>
      rcases hTold with ⟨hNone, -⟩ | ⟨status, now, error, metadata, hOne, -, -⟩
      · rw [hNone] at hTrace
        cases hTrace
      · rw [hOne, List.mem_singleton] at hTrace
        rw [hTrace]
        rfl
  | @answered s q c outcome started completed told hCleared hCall hCalls hEntries hQueued hTraces
      hTold =>
      have hType : s.type = plan.typeOf s.id := by
        have hStep : plan.flow.step? l.item = some s := hCleared.step
        rw [id_of_step? hStep, typeOf_of_step? hStep]
      rw [hTraces, List.mem_cons] at hTrace
      rcases hTrace with rfl | hLater
      · exact hType
      · obtain ⟨now, message, rfl⟩ := hTold.told t hLater
        rw [hCall]
        exact hType
  | cancelled hCleared hCalls hEntries hQueued hTraces =>
      rw [hTraces] at hTrace
      cases hTrace

/-- The entry that a leg writes is that of its item. -/
theorem Adds.entry_item {l : Leg (σ × List Call)} (h : plan.Adds l) :
    ∀ e ∈ l.entries, e.stepId = l.item := by
  intro e hEntry
  cases h with
  | quiet hCalls hEntries =>
      rw [hEntries] at hEntry
      cases hEntry
  | answered started completed told hCleared hCall hCalls hEntries =>
      rw [hEntries, List.mem_singleton] at hEntry
      rw [hEntry]
      exact id_of_step? hCleared.step
  | cancelled hCleared hCalls hEntries =>
      rw [hEntries] at hEntry
      cases hEntry

/-- A call after which the run goes on was answered within the limit. -/
theorem Adds.affords_of_goesOn {l : Leg (σ × List Call)} (h : plan.Adds l)
    (hGoesOn : l.visited.parts.2 = .finished none) : ∀ c ∈ l.calls, plan.affords c = true := by
  intro c hCall
  cases h with
  | quiet hCalls =>
      rw [hCalls] at hCall
      cases hCall
  | answered started completed told hCleared hNote hCalls hEntries hQueued hTraces hTold =>
      rw [hCalls, List.mem_singleton] at hCall
      rw [hGoesOn] at hTold
      rw [hCall]
      exact hTold.affords_of_goesOn
  | cancelled hCleared hCalls hEntries hQueued hTraces hEnd =>
      rw [hEnd] at hGoesOn
      cases hGoesOn

theorem step?_of_mem_branchOf {c : Call} {id : String} (h : id ∈ plan.branchOf c) :
    (plan.flow.step? id).isSome := by
  unfold branchOf at h
  split at h
  · split at h
    · simp only [List.mem_filter, Bool.and_eq_true] at h
      exact h.2.1
    · cases h
  · cases h

/-- A step of the chain of a target that is not queued has run before. -/
theorem mem_branchOf_or {c : Call} {target id : String} (hTarget : plan.target? c = some target)
    (hAffords : plan.affords c = true) (hChain : id ∈ plan.flow.chainFrom target)
    (hStep : (plan.flow.step? id).isSome) :
    id ∈ plan.branchOf c ∨ id ∈ c.ledger.stepIds ∨ id = c.step.id := by
  by_cases hRan : c.ledger.has id = true
  · exact .inr (.inl ((Ledger.has_iff_mem _ _).mp hRan))
  · by_cases hSelf : id = c.step.id
    · exact .inr (.inr hSelf)
    · refine .inl ?_
      unfold branchOf
      rw [hTarget]
      simp [hAffords, hChain, hStep, hRan, hSelf]

end Plan

namespace Engine

variable {e : Engine σ} {job : Job} {world : σ}

/-- The whole queue of a run: the items that it begins with, and behind them, call by call, those of
the branches. -/
def line (e : Engine σ) (job : Job) (world : σ) : List String :=
  job.flow.initialQueue ++
    (e.record job world).1.world.2.flatMap (e.opening job world).1.branchOf

/-- The items that a run takes and those that still wait at its end are its queue. -/
theorem line_eq (e : Engine σ) (job : Job) (world : σ) :
    e.line job world =
      (e.visits job world).map Leg.item ++ (e.record job world).1.pending := by
  have hQueued : (e.visits job world).flatMap Leg.queued =
      (e.record job world).1.world.2.flatMap (e.opening job world).1.branchOf := by
    rw [calls_record, List.flatMap_assoc]
    exact List.flatMap_congr fun l hLeg => (Plan.adds_of_mem_legs hLeg).queued_eq
  rw [line, ← hQueued]
  exact Plan.items_eq (e.opening job world).1.watched
    (fun id p => (Plan.gain_visit (e.opening job world).1 id p).prefixes.2.2.2)
    (e.opening job world).2.watched

/-- A run that ends without an error has taken every item. -/
theorem line_eq_of_finished (hEnd : (e.record job world).2 = .finished none) :
    e.line job world = (e.visits job world).map Leg.item := by
  have hNone : (e.record job world).1.pending = [] := (Plan.finished_walk hEnd).1
  rw [line_eq, hNone, List.append_nil]

theorem itemTraces_record (e : Engine σ) (job : Job) (world : σ) :
    (itemTraces (e.record job world).1.traces).map Trace.stepId =
      (e.visits job world).flatMap fun l => (itemTraces l.traces).map Trace.stepId := by
  rw [traces_record, itemTraces, List.filter_flatMap, List.map_flatMap]
  rfl

theorem typed_record : ∀ t ∈ (e.record job world).1.traces,
    t.type = (e.opening job world).1.typeOf t.stepId := by
  intro t hTrace
  rw [traces_record, List.mem_flatMap] at hTrace
  obtain ⟨l, hLeg, hTrace⟩ := hTrace
  exact (Plan.adds_of_mem_legs hLeg).typed t hTrace

/-- The traces of items are in the order of the queue, and all of them are there when the run ends
without an error. -/
theorem itemTraces_record_prefix (e : Engine σ) (job : Job) (world : σ) :
    (itemTraces (e.record job world).1.traces).map Trace.stepId <+: e.line job world ∧
      ((e.record job world).2 = .finished none →
        (itemTraces (e.record job world).1.traces).map Trace.stepId = e.line job world) := by
  obtain ⟨hPrefix, hWhole⟩ :=
    Plan.itemTraces_legs (e.opening job world).1 (e.opening job world).2.watched
  rw [itemTraces_record]
  refine ⟨?_, ?_⟩
  · rw [line_eq]
    exact hPrefix.trans (List.prefix_append _ _)
  · intro hEnd
    rw [line_eq_of_finished hEnd]
    exact hWhole hEnd

/-- An id without a step is not behind the items that a run begins with. -/
theorem index_lt_of_no_step {ids : List String} {i : Nat} {id : String}
    (hPrefix : ids <+: e.line job world) (hItem : ids[i]? = some id)
    (hNone : job.flow.step? id = none) : i < job.flow.initialQueue.length := by
  apply Nat.lt_of_not_le
  intro hBehind
  have hLine := List.prefix_iff_getElem?.mp hPrefix i (List.getElem?_eq_some_iff.mp hItem).1
  rw [line, List.getElem?_append_right hBehind, (List.getElem?_eq_some_iff.mp hItem).2] at hLine
  obtain ⟨c, -, hBranch⟩ := List.mem_flatMap.mp (List.mem_of_getElem? hLine)
  have hStep : (job.flow.step? id).isSome := Plan.step?_of_mem_branchOf hBranch
  rw [hNone] at hStep
  cases hStep

/-- In a run that ends without an error, every step of the chain of a target is an item. -/
theorem mem_items_of_chain {c : Call} {target id : String}
    (hEnd : (e.record job world).2 = .finished none) (hCall : c ∈ (e.record job world).1.world.2)
    (hTarget : (e.opening job world).1.target? c = some target)
    (hChain : id ∈ job.flow.chainFrom target) (hStep : (job.flow.step? id).isSome) :
    id ∈ (e.visits job world).map Leg.item := by
  rw [calls_record, List.mem_flatMap] at hCall
  obtain ⟨l, hLeg, hNote⟩ := hCall
  have hGoesOn : l.visited.parts.2 = .finished none := (Plan.finished_walk hEnd).2 l hLeg
  have hAffords := (Plan.adds_of_mem_legs hLeg).affords_of_goesOn hGoesOn c hNote
  obtain ⟨_, hCleared, hLedger⟩ := (Plan.adds_of_mem_legs hLeg).cleared c hNote
  rcases Plan.mem_branchOf_or hTarget hAffords hChain hStep with hQueued | hRan | hSelf
  · have hLine : id ∈ e.line job world := by
      refine List.mem_append_right _ (List.mem_flatMap.mpr ⟨c, ?_, hQueued⟩)
      rw [calls_record]
      exact List.mem_flatMap.mpr ⟨l, hLeg, hNote⟩
    rwa [line_eq_of_finished hEnd] at hLine
  · -- a step on the ledger was written by a leg, and that leg has taken its item
    obtain ⟨q, rest, hReach, -, hBefore, -⟩ := Plan.reaches_of_mem_legs hLeg
    obtain ⟨entry, hEntry, rfl⟩ := List.mem_map.mp hRan
    rw [hLedger, hBefore] at hEntry
    have hWritten := ((Plan.grows_entries _).prefix_of_reaches hReach).subset hEntry
    change entry ∈ (e.record job world).1.ledger.entries at hWritten
    rw [entries_record, List.mem_flatMap] at hWritten
    obtain ⟨l', hLeg', hEntry'⟩ := hWritten
    rw [(Plan.adds_of_mem_legs hLeg').entry_item entry hEntry']
    exact List.mem_map_of_mem hLeg'
  · rw [hSelf, Plan.id_of_step? hCleared.step]
    exact List.mem_map_of_mem hLeg

/-- The traces of the items of a run that returns are in the order of its queue: the items that it
began with, and behind them, call by call, what the routers have chosen. None is missing when the
run ends without an error. So an id that is no step can only be traced among the items at the
beginning, and a run without an error leaves a trace of every step of every chain that was chosen. -/
theorem traces_follow_queue {e : Engine σ} {job : Job} {world : σ} {r : RunResult}
    (hSteps : job.flow.steps ≠ []) (hOutcome : (e.run job world).1.outcome = .ok r) :
    let plan := (e.opening job world).1
    let calls := (e.record job world).1.world.2
    let line := job.flow.initialQueue ++ calls.flatMap plan.branchOf
    let items := itemTraces r.traces
    items.map Trace.stepId <+: line ∧
    (r.error = none → items.map Trace.stepId = line) ∧
    (∀ i t, items[i]? = some t → t.type = "unknown" →
      (∀ s, job.flow.step? t.stepId = some s → s.type ≠ "unknown") →
      i < job.flow.initialQueue.length) ∧
    (r.error = none → ∀ c ∈ calls, ∀ target, plan.target? c = some target →
      ∀ id ∈ job.flow.chainFrom target, (job.flow.step? id).isSome →
        ∃ t ∈ r.traces, t.stepId = id) := by
  obtain ⟨error, ms, hEnd, -, rfl⟩ := record_of_outcome hSteps hOutcome
  obtain ⟨hPrefix, hWhole⟩ := itemTraces_record_prefix e job world
  refine ⟨hPrefix, ?_, ?_, ?_⟩
  · rintro rfl
    exact hWhole hEnd
  · intro i t hItem hUnknown hDeclared
    have hTrace : t ∈ itemTraces (e.record job world).1.traces := List.mem_of_getElem? hItem
    have hType := typed_record t (List.mem_filter.mp hTrace).1
    have hId : ((itemTraces (e.record job world).1.traces).map Trace.stepId)[i]? = some t.stepId := by
      rw [List.getElem?_map]
      exact congrArg (Option.map Trace.stepId) hItem
    apply index_lt_of_no_step hPrefix hId
    cases hStep : job.flow.step? t.stepId with
    | none => rfl
    | some s =>
        have hDeclaredType : (e.opening job world).1.typeOf t.stepId = s.type :=
          Plan.typeOf_of_step? hStep
        exact absurd (hDeclaredType.symm.trans (hType.symm.trans hUnknown)) (hDeclared s hStep)
  · rintro rfl c hCall target hTarget id hChain hStep
    have hItem := mem_items_of_chain hEnd hCall hTarget hChain hStep
    rw [← line_eq_of_finished hEnd, ← hWhole hEnd] at hItem
    obtain ⟨t, hTrace, hId⟩ := List.mem_map.mp hItem
    exact ⟨t, (List.mem_filter.mp hTrace).1, hId⟩

/-- An engine of routers that choose the step "task". -/
def routing : Engine Unit :=
  { listRouting with
    executors := fun type =>
      if type = Flow.routerType then
        some fun _ _ _ => pure ⟨.null, none, none, .text "task", .null⟩
      else none }

/-- A run that begins with a router, which chooses a step of a type without an executor. The type is
called "unknown". -/
def routedUnknown : Job :=
  { soleRouter with
    flow :=
      ⟨[⟨"task", "unknown", [], none, none, .unset, []⟩,
        ⟨"route", Flow.routerType, [], none, none, .unset, []⟩], some "route"⟩
    abortOnError := false }

theorem initialQueue_routedUnknown : routedUnknown.flow.initialQueue = ["route"] := by
  change routedUnknown.flow.chain [] "route" = ["route"]
  rw [Flow.chain]
  rfl

theorem chainFrom_routedUnknown : routedUnknown.flow.chainFrom "task" = ["task", "route"] := by
  have hRest : routedUnknown.flow.chain ["task"] "route" = ["route"] := by
    rw [Flow.chain]
    rfl
  rw [Flow.chainFrom, Flow.chain, ← hRest]
  rfl

/-- The router runs, and the step that it has chosen fails. -/
theorem walk_routedUnknown : ∃ p t u,
    (routing.opening routedUnknown ()).1.walk (routing.opening routedUnknown ()).2 =
      (p, .finished none) ∧
    p.traces = [t, u] ∧ itemTraces [t, u] = [t, u] ∧ u.stepId = "task" ∧ u.type = "unknown" := by
  have hPending : (routing.opening routedUnknown ()).2.pending = ["route"] :=
    initialQueue_routedUnknown
  have hChain : (routing.opening routedUnknown ()).1.flow.chainFrom "task" = ["task", "route"] :=
    chainFrom_routedUnknown
  have hRouted : ∃ q t, (routing.opening routedUnknown ()).1.visit "route"
        { (routing.opening routedUnknown ()).2 with pending := [] } = .goesOn q ∧
      q.pending = (routing.opening routedUnknown ()).1.branchFrom q.ledger "task" ∧
      q.ledger.stepIds = ["route"] ∧ q.executed = 1 ∧ q.traces = [t] ∧ t.tellsTokens = false :=
    ⟨_, _, rfl, rfl, rfl, rfl, rfl, rfl⟩
  obtain ⟨q, t, hRoute, hBranch, hIds, hExecuted, hTraces, hItem⟩ := hRouted
  have hRan : ∀ id, q.ledger.has id = decide (id = "route") := by
    intro id
    rw [Bool.eq_iff_iff, Ledger.has_iff_mem, hIds]
    simp
  have hTask : q.pending = ["task"] := by
    rw [hBranch, Plan.branchFrom, hChain]
    simp only [hRan]
    rfl
  have hCleared : (routing.opening routedUnknown ()).1.Cleared "task" { q with pending := [] }
      ⟨"task", "unknown", [], none, none, .unset, []⟩ { q with pending := [] } :=
    { below := by
        change (q.executed : Int) < 50
        omega
      step := rfl
      fresh := hRan "task"
      timely := rfl
      admitted := nofun }
  have hFailed : ∃ p u, (routing.opening routedUnknown ()).1.visit "task" { q with pending := [] } =
        .goesOn p ∧
      p.pending = [] ∧ p.traces = q.traces ++ [u] ∧ u.tellsTokens = false ∧ u.stepId = "task" ∧
      u.type = "unknown" := by
    rw [Plan.visit_of_cleared hCleared]
    exact ⟨_, _, rfl, rfl, rfl, rfl, rfl, rfl⟩
  obtain ⟨p, u, hUnserved, hNone, hLast, hOther, hId, hType⟩ := hFailed
  refine ⟨p, t, u, ?_, ?_, ?_, hId, hType⟩
  · rw [Plan.walk_eq, Plan.next?, hPending]
    simp only [hRoute]
    rw [Plan.walk_eq, Plan.next?, hTask]
    simp only [hUnserved]
    exact Plan.walk_of_nil hNone
  · rw [hLast, hTraces]
    rfl
  · simp [itemTraces, hItem, hOther]

theorem outcome_routedUnknown : ∃ r t u, (routing.run routedUnknown ()).1.outcome = .ok r ∧
    r.error = none ∧ itemTraces r.traces = [t, u] ∧ u.stepId = "task" ∧ u.type = "unknown" := by
  obtain ⟨p, t, u, hWalk, hTraces, hItems, hId, hType⟩ := walk_routedUnknown
  have hSteps : routedUnknown.flow.steps ≠ [] := List.cons_ne_nil _ _
  have hOutcome : ∃ ms, (routing.run routedUnknown ()).1.outcome =
      .ok (routedUnknown.result p none ms) := by
    rw [outcome_run hSteps, hWalk]
    exact ⟨_, rfl⟩
  obtain ⟨ms, hOutcome⟩ := hOutcome
  refine ⟨_, t, u, hOutcome, rfl, ?_, hId, hType⟩
  change itemTraces p.traces = _
  rw [hTraces, hItems]

theorem routed_unknown_follows : ∃ r, (routing.run routedUnknown ()).1.outcome = .ok r ∧
    (itemTraces r.traces).map Trace.stepId =
      routedUnknown.flow.initialQueue ++ (routing.record routedUnknown ()).1.world.2.flatMap
        (routing.opening routedUnknown ()).1.branchOf := by
  obtain ⟨r, _, _, hOutcome, hError, -⟩ := outcome_routedUnknown
  have hSteps : routedUnknown.flow.steps ≠ [] := List.cons_ne_nil _ _
  exact ⟨r, hOutcome, (traces_follow_queue hSteps hOutcome).2.1 hError⟩

/-- A step may be declared with the type that unknown ids are traced with. Its trace then has this
type wherever its item stands. -/
theorem unknown_type_behind_start : ¬ ∀ r, (routing.run routedUnknown ()).1.outcome = .ok r →
    ∀ i t, (itemTraces r.traces)[i]? = some t → t.type = "unknown" →
      i < routedUnknown.flow.initialQueue.length := by
  intro hClaim
  obtain ⟨r, t, u, hOutcome, -, hItems, -, hType⟩ := outcome_routedUnknown
  have hFirst : (itemTraces r.traces)[1]? = some u := by
    rw [hItems]
    rfl
  have hBefore := hClaim r hOutcome 1 u hFirst hType
  rw [initialQueue_routedUnknown] at hBefore
  exact absurd hBefore (Nat.lt_irrefl 1)

end Engine

end StepFlow
