import StepFlow.Proofs.Flow.Audit
import StepFlow.Proofs.Run.Failure
import StepFlow.Proofs.Run.Queue
import StepFlow.Proofs.Run.Touch
import StepFlow.Registry

/-! Runs of flows in which an audit finds nothing, over the registry that the audit has seen. Every
item that ever waits is a step, and something carries it out. So all errors are told by executors,
and what a router chooses by conditions is followed. -/
namespace StepFlow

variable {σ : Type}

theorem Registry.get?_isSome_iff {α : Type} {r : Registry α} {type : String} :
    (r.get? type).isSome ↔ type ∈ r.types := r.entries.contains_iff_mem_keys type

namespace Plan

variable {plan : Plan σ}

/-- Every trace of a leg is one of its item. -/
theorem Adds.traces_item {l : Leg (σ × List Call)} (h : plan.Adds l) :
    ∀ t ∈ l.traces, t.stepId = l.item := by
  intro t hTrace
  cases h with
  | quiet hCalls hEntries hQueued hTold =>
      rcases hTold with ⟨hNone, -⟩ | ⟨status, now, error, metadata, hOne, -⟩
      · rw [hNone] at hTrace
        cases hTrace
      · rw [hOne, List.mem_singleton] at hTrace
        rw [hTrace]
        rfl
  | @answered s q c outcome started completed told hCleared hCall hCalls hEntries hQueued hTraces
      hTold =>
      have hId : s.id = l.item := id_of_step? hCleared.step
      rw [hTraces, List.mem_cons] at hTrace
      rcases hTrace with rfl | hLater
      · exact hId
      · obtain ⟨now, message, rfl⟩ := hTold.told t hLater
        rw [hCall]
        exact hId
  | cancelled hCleared hCalls hEntries hQueued hTraces =>
      rw [hTraces] at hTrace
      cases hTrace

/-- The target of a router that has chosen a step is that step. -/
theorem target?_of_text {c : Call} {r : StepResult} {id : String}
    (hRouter : c.step.type = Flow.routerType) (hOutcome : c.outcome = .ok r)
    (hBranch : r.nextBranch = .text id) (hSome : id.isEmpty = false)
    (hStep : (plan.flow.step? id).isSome) : plan.target? c = some id := by
  unfold target? Call.named?
  rw [if_pos hRouter, hOutcome]
  simp [hBranch, hSome, hStep, Option.filter]

/-- The visit of the first item that waits is a leg. -/
theorem exists_first_leg {p : Progress σ} {id : String} {rest : List String}
    (hPending : p.pending = id :: rest) :
    ⟨id, { p with pending := rest }, plan.visit id { p with pending := rest }⟩ ∈ plan.legs p := by
  rw [legs.eq_def]
  split
  · rename_i hNone
    rw [hNone] at hPending
    cases hPending
  · rename_i first others hFirst
    obtain ⟨rfl, rfl⟩ := List.cons.inj (hFirst.symm.trans hPending)
    split <;> rename_i hVisit <;> rw [hVisit] <;> exact List.mem_cons_self

end Plan

namespace Engine

/-- An engine whose executors are those of a registry. -/
def registered (host : Host σ) (registry : Registry (Executor σ)) (settings : Settings) : Engine σ :=
  { host, executors := registry.get?, settings }

variable {e : Engine σ} {job : Job} {world : σ} {types : List String}

/-- In a sound flow every item that a run takes is a step. -/
theorem item_mem_stepIds (hSound : job.flow.Sound types) {l : Leg (σ × List Call)}
    (hLeg : l ∈ e.visits job world) : l.item ∈ job.flow.stepIds := by
  have hLine : l.item ∈ e.line job world := by
    rw [line_eq]
    exact List.mem_append_left _ (List.mem_map_of_mem hLeg)
  rcases List.mem_append.mp hLine with hBegun | hQueued
  · exact hSound.mem_stepIds_of_initialQueue hBegun
  · obtain ⟨c, -, hBranch⟩ := List.mem_flatMap.mp hQueued
    exact Flow.step?_isSome_iff.mp (Plan.step?_of_mem_branchOf hBranch)

/-- Where the types of a sound flow have executors, every item of a run is a step that is carried
out. -/
theorem carried_of_sound (hSound : job.flow.Sound types)
    (hServed : ∀ type ∈ types, (e.executors type).isSome) {l : Leg (σ × List Call)}
    (hLeg : l ∈ e.visits job world) :
    ∃ s ∈ job.flow.steps, s.id = l.item ∧ job.flow.step? l.item = some s ∧
      (e.executors s.type).isSome := by
  obtain ⟨s, hStep⟩ := Option.isSome_iff_exists.mp
    (Flow.step?_isSome_iff.mpr (item_mem_stepIds hSound hLeg))
  have hMem : s ∈ job.flow.steps := Flow.mem_steps_of_step? hStep
  exact ⟨s, hMem, Plan.id_of_step? hStep, hStep, hServed _ (hSound.typed s hMem)⟩

/-- Every trace of such a run is one of a step that is carried out, and errors are told by executors
alone. -/
theorem traces_of_sound (hSound : job.flow.Sound types)
    (hServed : ∀ type ∈ types, (e.executors type).isSome) :
    ∀ t ∈ (e.record job world).1.traces,
      (∃ s ∈ job.flow.steps, s.id = t.stepId ∧ s.type = t.type ∧ (e.executors s.type).isSome) ∧
        (t.status = .error → t ∈ e.answers job world) := by
  intro t hTrace
  rw [traces_record, List.mem_flatMap] at hTrace
  obtain ⟨l, hLeg, hOwn⟩ := hTrace
  have hAdds := Plan.adds_of_mem_legs hLeg
  obtain ⟨s, hMem, hId, hStep, hExecutor⟩ := carried_of_sound hSound hServed hLeg
  have hItem : t.stepId = l.item := hAdds.traces_item t hOwn
  have hCarried : ¬ (e.opening job world).1.Strands l.item := by
    intro hStrands
    have hNone : e.executors s.type = none := hStrands s hStep
    rw [hNone] at hExecutor
    cases hExecutor
  refine ⟨⟨s, hMem, hId.trans hItem.symm, ?_, hExecutor⟩, fun hError => ?_⟩
  · have hType := hAdds.typed t hOwn
    rw [hItem] at hType
    exact (Plan.typeOf_of_step? hStep).symm.trans hType.symm
  · exact List.mem_flatMap.mpr ⟨l, hLeg, hAdds.error_mem_answers hCarried t hOwn hError⟩

/-- What a router of a sound flow chooses by conditions is a step, and that is its target. -/
theorem target_of_sound {host : Host σ} (hSound : job.flow.Sound types)
    (hRouting : e.executors Flow.routerType = some (Executor.routing host))
    {l : Leg (σ × List Call)} (hLeg : l ∈ e.visits job world) {c : Call} (hCall : c ∈ l.calls)
    {r : StepResult} (hRouter : c.step.type = Flow.routerType)
    (hMode : Flow.routesByModel c.step.config = false) (hOutcome : c.outcome = .ok r)
    (hChosen : r.nextBranch.isVoid = false) :
    ∃ id ∈ job.flow.stepIds, r.nextBranch = .text id ∧ (e.opening job world).1.target? c = some id := by
  obtain ⟨q, hCleared, -⟩ := (Plan.adds_of_mem_legs hLeg).cleared c hCall
  have hStep : job.flow.step? l.item = some c.step := hCleared.step
  obtain ⟨targets, hTargets, hSteps⟩ :=
    hSound.routed c.step (Flow.mem_steps_of_step? hStep) hRouter
  obtain ⟨executor, w, hServed, hPerformed⟩ := Plan.performed_of_mem_legs hLeg c hCall
  obtain rfl : executor = Executor.routing host := by
    rw [hRouter] at hServed
    exact Option.some.inj (hServed.symm.trans hRouting)
  have hRouted : Executor.routeByCondition c.step c.ledger = .ok r := by
    rw [hOutcome] at hPerformed
    unfold Executor.routing at hPerformed
    rw [hMode] at hPerformed
    cases hResult : Executor.routeByCondition c.step c.ledger with
    | error f =>
        rw [hResult] at hPerformed
        cases hPerformed
    | ok result =>
        rw [hResult] at hPerformed
        cases hPerformed
        rfl
  have hListed := Executor.nextBranch_mem_routerTargets hMode hRouted hTargets hChosen
  obtain ⟨id, hId, hBranch⟩ := hSteps _ hListed
  have hSome : id.isEmpty = false := by
    rw [hBranch] at hChosen
    exact hChosen
  exact ⟨id, hId, hBranch,
    Plan.target?_of_text hRouter hOutcome hBranch hSome (Flow.step?_isSome_iff.mpr hId)⟩

/-- In a run of a flow in which an audit by the registry of the engine finds nothing, every trace
is one of a step of the flow with a registered type, and errors are told by executors alone. The
queue begins with the entry point, if there is one. And what a router chooses by conditions is a
step: when the run goes on, the steps of its chain wait, but for those that have run. -/
theorem audited_runs_carried {registry : Registry (Executor σ)}
    (hAudit : job.flow.audit registry.types = .ok []) (host : Host σ) (settings : Settings)
    (world : σ) :
    let e := registered host registry settings
    (∀ t ∈ (e.record job world).1.traces,
      (∃ s ∈ job.flow.steps, s.id = t.stepId ∧ s.type = t.type ∧ (registry.get? s.type).isSome) ∧
        (t.status = .error → t ∈ e.answers job world)) ∧
    (∀ r, (e.run job world).1.outcome = .ok r → r.traces = (e.record job world).1.traces) ∧
    (∀ id, job.flow.entryPoint = some id → id.isEmpty = false →
      job.flow.initialQueue.head? = some id) ∧
    (∀ host', registry.get? Flow.routerType = some (Executor.routing host') →
      ∀ l ∈ e.visits job world, ∀ c ∈ l.calls, ∀ r, c.step.type = Flow.routerType →
        Flow.routesByModel c.step.config = false → c.outcome = .ok r →
        r.nextBranch.isVoid = false →
        ∃ id ∈ job.flow.stepIds, r.nextBranch = .text id ∧
          (e.opening job world).1.target? c = some id ∧
          (l.visited.parts.2 = .finished none → ∀ next ∈ job.flow.chainFrom id,
            next ∈ l.queued ∨ next ∈ c.ledger.stepIds ∨ next = c.step.id)) := by
  intro e
  have hSound : job.flow.Sound registry.types := Flow.audit_eq_nil_iff.mp hAudit
  have hServed : ∀ type ∈ registry.types, (e.executors type).isSome := fun _ =>
    Registry.get?_isSome_iff.mpr
  refine ⟨traces_of_sound hSound hServed, ?_, fun _ => hSound.head?_initialQueue, ?_⟩
  · intro r hOutcome
    obtain ⟨_, -, -, hTraces⟩ := finished_of_outcome hOutcome
    exact hTraces
  · intro host' hRouting l hLeg c hCall r hRouter hMode hOutcome hChosen
    obtain ⟨id, hId, hBranch, hTarget⟩ :=
      target_of_sound hSound hRouting hLeg hCall hRouter hMode hOutcome hChosen
    refine ⟨id, hId, hBranch, hTarget, ?_⟩
    intro hGoesOn next hChain
    have hAdds := Plan.adds_of_mem_legs hLeg
    have hStep : next ∈ job.flow.stepIds := Flow.mem_stepIds_of_chain hSound.linked hId hChain
    rcases Plan.mem_branchOf_or hTarget (hAdds.affords_of_goesOn hGoesOn c hCall) hChain
        (Flow.step?_isSome_iff.mpr hStep) with hQueued | hRan
    · refine .inl ?_
      rw [hAdds.queued_eq]
      exact List.mem_flatMap.mpr ⟨c, hCall, hQueued⟩
    · exact .inr hRan

/-- A registry of routers and of steps that count. -/
def counters : Registry (Executor Unit) :=
  ⟨[(Flow.routerType, Executor.routing listRouting.host),
    ("count", fun _ _ _ => pure ⟨.text "counted", none, none, .null, .null⟩)], false⟩

/-- A run that begins with a router, which always chooses the other step. -/
def routedOn : Job :=
  { soleRouter with
    flow :=
      ⟨[⟨"task", "count", [], none, none, .unset, []⟩,
        ⟨"route", Flow.routerType, [("defaultTarget", .text "task")], none, none, .unset, []⟩],
        some "route"⟩ }

/-- The router of the run is called, and the step that it has chosen is its target. -/
theorem routed_on_carried :
    let e := registered listRouting.host counters listRouting.settings
    routedOn.flow.audit counters.types = .ok [] ∧
      routedOn.flow.initialQueue.head? = some "route" ∧
      ∃ c ∈ (e.record routedOn ()).1.world.2, (e.opening routedOn ()).1.target? c = some "task" := by
  intro e
  have hAudit : routedOn.flow.audit counters.types = .ok [] := rfl
  obtain ⟨-, -, hEntry, hRouted⟩ :=
    audited_runs_carried hAudit listRouting.host listRouting.settings ()
  have hHead : routedOn.flow.initialQueue.head? = some "route" := hEntry "route" rfl rfl
  obtain ⟨rest, hQueue⟩ := List.head?_eq_some_iff.mp hHead
  have hPending : (e.opening routedOn ()).2.watched.pending = "route" :: rest := hQueue
  have hLeg := @Plan.exists_first_leg _ (e.opening routedOn ()).1.watched _ _ _ hPending
  obtain ⟨c, hCalls, hRouter, hMode, r, hOutcome, hBranch⟩ : ∃ c,
      Leg.calls ⟨"route", { (e.opening routedOn ()).2.watched with pending := rest },
        (e.opening routedOn ()).1.watched.visit "route"
          { (e.opening routedOn ()).2.watched with pending := rest }⟩ = [c] ∧
      c.step.type = Flow.routerType ∧ Flow.routesByModel c.step.config = false ∧
      ∃ r, c.outcome = .ok r ∧ r.nextBranch = .text "task" := ⟨_, rfl, rfl, rfl, _, rfl, rfl⟩
  have hCall : c ∈ Leg.calls _ := hCalls ▸ List.mem_singleton_self c
  obtain ⟨id, -, hId, hTarget, -⟩ :=
    hRouted listRouting.host rfl _ hLeg c hCall r hRouter hMode hOutcome (by rw [hBranch]; rfl)
  refine ⟨hAudit, hHead, c, ?_, ?_⟩
  · rw [calls_record]
    exact List.mem_flatMap.mpr ⟨_, hLeg, hCall⟩
  · rw [hBranch] at hId
    cases hId
    exact hTarget

end Engine

end StepFlow
