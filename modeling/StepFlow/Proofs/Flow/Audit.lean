import StepFlow.Flow.Chain
import StepFlow.Proofs.Executor.Spending

/-! Flows in which an audit finds nothing. Their steps have ids of their own and known types, and
whatever names a step names one of them: the entry point, an edge, or the branch of a router. So
every chain is a chain of steps, and a router that goes by conditions chooses a step or nothing. -/
namespace StepFlow

namespace Flow

variable {f : Flow} {types : List String} {s : Step}

/-- A router only names steps. -/
def Directed (f : Flow) (config : Table Value) : Prop :=
  ∃ targets, routerTargets config = .ok targets ∧ ∀ v ∈ targets, ∃ id ∈ f.stepIds, v = .text id

/-- A flow whose steps can all be carried out and lead to one another. -/
structure Sound (f : Flow) (types : List String) : Prop where
  distinct : f.stepIds.Nodup
  begun : ∀ id, f.entryPoint = some id → id.isEmpty = false → id ∈ f.stepIds
  typed : ∀ s ∈ f.steps, s.type ∈ types
  linked : ∀ s ∈ f.steps, ∀ id ∈ edgeTargets s.next, id ∈ f.stepIds
  routed : ∀ s ∈ f.steps, s.type = routerType → f.Directed s.config

theorem duplicateIssues_eq_nil_iff {ids : List String} : duplicateIssues ids = [] ↔ ids.Nodup := by
  unfold duplicateIssues
  rw [List.filterMap_eq_nil_iff, List.nodup_iff_count]
  constructor
  · intro hNone id
    by_cases hUsed : id ∈ ids
    · have hOnce := hNone id (List.mem_eraseDups.mpr hUsed)
      simp only [ite_eq_right_iff, reduceCtorEq, imp_false] at hOnce
      exact Nat.le_of_not_lt hOnce
    · rw [List.count_eq_zero.mpr hUsed]
      exact Nat.zero_le _
  · intro hOnce id _
    simp [hOnce id]

theorem entryIssues_eq_nil_iff :
    f.entryIssues = [] ↔ ∀ id, f.entryPoint = some id → id.isEmpty = false → id ∈ f.stepIds := by
  unfold entryIssues
  cases f.entryPoint with
  | none => simp
  | some id =>
      simp only [Option.some.injEq, forall_eq']
      cases id.isEmpty with
      | true => simp
      | false => simp

theorem typeIssues_eq_nil_iff : typeIssues types s = [] ↔ s.type ∈ types := by
  unfold typeIssues
  simp

theorem edgeIssues_eq_nil_iff {ids : List String} :
    edgeIssues ids s = [] ↔ ∀ id ∈ edgeTargets s.next, id ∈ ids := by
  unfold edgeIssues
  simp [List.filterMap_eq_nil_iff]

/-- A branch is no issue exactly when it is the id of a step. What no set can hold is no id. -/
theorem branchIssue_eq_nil_iff {ids : List String} {stepId : String} {target : Value} :
    branchIssue ids stepId target = .ok [] ↔ ∃ id ∈ ids, target = .text id := by
  rw [← Value.isOneOf_iff]
  unfold branchIssue Value.hashed
  cases hListed : target.isOneOf ids with
  | true =>
      obtain ⟨id, -, rfl⟩ := Value.isOneOf_iff.mp hListed
      simp [Value.isHashable, hListed, pure, Except.pure, bind, Except.bind]
  | false =>
      cases target.isHashable with
      | false => simp [bind, Except.bind]
      | true =>
          cases hShown : target.display <;>
            simp [hListed, hShown, pure, Except.pure, bind, Except.bind]

theorem branchIssues_eq_nil_iff :
    branchIssues f.stepIds s = .ok [] ↔ (s.type = routerType → f.Directed s.config) := by
  unfold branchIssues
  by_cases hRouter : s.type = routerType
  · rw [if_pos hRouter]
    simp only [hRouter, true_implies]
    unfold Directed
    cases routerTargets s.config with
    | error fault => simp [bind, Except.bind]
    | ok targets =>
        have hCollected := collected_eq_nil_iff (branchIssue f.stepIds s.id) targets
        simp only [branchIssue_eq_nil_iff] at hCollected
        simp only [Except.ok.injEq, exists_eq_left']
        exact hCollected
  · simp [hRouter, pure, Except.pure]

theorem stepIssues_eq_nil_iff :
    stepIssues types f.stepIds s = .ok [] ↔
      s.type ∈ types ∧ (∀ id ∈ edgeTargets s.next, id ∈ f.stepIds) ∧
        (s.type = routerType → f.Directed s.config) := by
  rw [← typeIssues_eq_nil_iff, ← edgeIssues_eq_nil_iff, ← branchIssues_eq_nil_iff]
  unfold stepIssues
  cases branchIssues f.stepIds s with
  | error fault => simp [bind, Except.bind]
  | ok found => simp [pure, Except.pure, bind, Except.bind]

/-- An audit finds nothing exactly in sound flows. -/
theorem audit_eq_nil_iff : f.audit types = .ok [] ↔ f.Sound types := by
  have hSteps := collected_eq_nil_iff (stepIssues types f.stepIds) f.steps
  simp only [stepIssues_eq_nil_iff] at hSteps
  have hAudit : f.audit types = .ok [] ↔
      duplicateIssues f.stepIds = [] ∧ f.entryIssues = [] ∧
        (do return (← f.steps.mapM (stepIssues types f.stepIds)).flatten :
          Except Fault (List Issue)) = .ok [] := by
    unfold audit
    cases f.steps.mapM (stepIssues types f.stepIds) with
    | error fault => simp [bind, Except.bind]
    | ok found => simp [pure, Except.pure, bind, Except.bind]
  rw [hAudit, hSteps, duplicateIssues_eq_nil_iff, entryIssues_eq_nil_iff]
  constructor
  · rintro ⟨hDistinct, hBegun, hEach⟩
    exact ⟨hDistinct, hBegun, fun s hStep => (hEach s hStep).1, fun s hStep => (hEach s hStep).2.1,
      fun s hStep => (hEach s hStep).2.2⟩
  · intro hSound
    exact ⟨hSound.distinct, hSound.begun, fun s hStep =>
      ⟨hSound.typed s hStep, hSound.linked s hStep, hSound.routed s hStep⟩⟩

/-- An id names a step exactly when it is among the ids of the steps. -/
theorem step?_isSome_iff {id : String} : (f.step? id).isSome ↔ id ∈ f.stepIds := by
  unfold step? stepIds
  rw [List.find?_isSome]
  simp [eq_comm]

theorem mem_steps_of_step? {id : String} (h : f.step? id = some s) : s ∈ f.steps :=
  List.mem_reverse.mp (List.mem_of_find?_eq_some h)

theorem mem_of_fresh {visited ids : List String} {id : String} (h : id ∈ fresh visited ids) :
    id ∈ ids := by
  induction ids generalizing visited with
  | nil => cases h
  | cons first rest ih =>
      unfold fresh at h
      split at h
      · exact List.mem_cons_of_mem _ (ih h)
      · rcases List.mem_cons.mp h with rfl | hLater
        · exact List.mem_cons_self
        · exact List.mem_cons_of_mem _ (ih hLater)

theorem mem_of_after? {current id : String} (h : f.after? current = some id) : id ∈ f.stepIds := by
  unfold after? at h
  split at h
  · exact List.mem_of_getElem? h
  · cases h

/-- Where edges lead to steps, a chain that begins with a step is one of steps. -/
theorem mem_stepIds_of_chain (hLinked : ∀ s ∈ f.steps, ∀ id ∈ edgeTargets s.next, id ∈ f.stepIds)
    {visited : List String} {current id : String} (hFirst : current ∈ f.stepIds)
    (h : id ∈ f.chain visited current) : id ∈ f.stepIds := by
  have hEdge : ∀ {current s target}, f.step? current = some s → target ∈ edgeTargets s.next →
      target ∈ f.stepIds := fun hStep => hLinked _ (mem_steps_of_step? hStep) _
  fun_induction chain f visited current with
  | case1 => cases h
  | case2 => cases h
  | case3 => rwa [List.mem_singleton.mp h]
  | case4 visited current hSome hNew s hStep next hNext ih =>
      rcases List.mem_cons.mp h with rfl | hLater
      · exact hFirst
      · exact ih (hEdge hStep (by simp [hNext, edgeTargets])) hLater
  | case5 visited current hSome hNew s hStep first rest hNext =>
      rcases List.mem_cons.mp h with rfl | hLater
      · exact hFirst
      · exact hEdge hStep (by simpa [hNext, edgeTargets] using mem_of_fresh hLater)
  | case6 visited current hSome hNew s hStep next hAfter hOne hSeveral ih =>
      rcases List.mem_cons.mp h with rfl | hLater
      · exact hFirst
      · exact ih (mem_of_after? hAfter) hLater
  | case7 => rwa [List.mem_singleton.mp h]

namespace Sound

/-- The queue of a sound flow begins with the entry point. -/
theorem head?_initialQueue (h : f.Sound types) {id : String} (hEntry : f.entryPoint = some id)
    (hSome : id.isEmpty = false) : f.initialQueue.head? = some id := by
  have hStep : (f.step? id).isSome := step?_isSome_iff.mpr (h.begun id hEntry hSome)
  unfold initialQueue
  simp only [hEntry, hSome, hStep, Bool.not_false, Bool.and_self, if_true]
  exact head?_chain hSome rfl

/-- All that a run of a sound flow begins with are steps. -/
theorem mem_stepIds_of_initialQueue (h : f.Sound types) {id : String} (hItem : id ∈ f.initialQueue) :
    id ∈ f.stepIds := by
  unfold initialQueue at hItem
  split at hItem
  · split at hItem
    · rename_i entry _ hBegins
      simp only [Bool.and_eq_true] at hBegins
      exact mem_stepIds_of_chain h.linked (step?_isSome_iff.mp hBegins.2) hItem
    · exact hItem
  · exact hItem

end Sound

end Flow

namespace Executor

/-- A target that is put into words stays what it is. -/
theorem eq_of_announced {target told : Value} (h : announced target = .ok told) : told = target := by
  obtain ⟨words, -, hTold⟩ := exists_of_bind_eq_ok h
  exact (Except.ok.inj hTold).symm

/-- A route that is chosen by its condition is a listed one. -/
theorem exists_route_of_firstRoute {context : Expr.Context} {routes : List Value} {r : StepResult}
    (h : firstRoute context routes = .ok (some r)) :
    ∃ route ∈ routes, ∃ fields, route.settingFields = .ok fields ∧
      r.nextBranch = Value.field fields "target" := by
  induction routes with
  | nil => cases h
  | cons route rest ih =>
      obtain ⟨fields, hFields, hHolds⟩ := exists_of_bind_eq_ok h
      obtain ⟨holds, -, hChosen⟩ := exists_of_bind_eq_ok hHolds
      cases holds with
      | true =>
          obtain ⟨target, hTold, hResult⟩ := exists_of_bind_eq_ok hChosen
          obtain rfl := eq_of_announced hTold
          cases hResult
          exact ⟨route, List.mem_cons_self, fields, hFields, rfl⟩
      | false =>
          obtain ⟨other, hOther, hTarget⟩ := ih hChosen
          exact ⟨other, List.mem_cons_of_mem _ hOther, hTarget⟩

/-- What a router chooses by conditions is a target that an audit looks at, unless it is void. -/
theorem nextBranch_mem_routerTargets {s : Step} {l : Ledger} {r : StepResult} {targets : List Value}
    (hMode : Flow.routesByModel s.config = false) (h : routeByCondition s l = .ok r)
    (hTargets : Flow.routerTargets s.config = .ok targets) (hChosen : r.nextBranch.isVoid = false) :
    r.nextBranch ∈ targets := by
  unfold Flow.routerTargets at hTargets
  rw [hMode] at hTargets
  obtain ⟨listed, hListed, hTargets⟩ := exists_of_bind_eq_ok hTargets
  obtain ⟨routes, hRoutes, hFirst⟩ := exists_of_bind_eq_ok h
  obtain rfl : listed = routes := Except.ok.inj (hListed.symm.trans hRoutes)
  obtain ⟨found, hFound, hResult⟩ := exists_of_bind_eq_ok hFirst
  cases hTargets
  cases found with
  | some result =>
      cases hResult
      obtain ⟨route, hRoute, fields, hFields, hTarget⟩ := exists_route_of_firstRoute hFound
      refine List.mem_append_left _ (List.mem_filterMap.mpr ⟨route, hRoute, ?_⟩)
      unfold Value.settingFields at hFields
      cases hOwn : route.fields? with
      | none =>
          rw [hOwn] at hFields
          cases hFields
      | some own =>
          rw [hOwn] at hFields
          cases hFields
          rw [hTarget] at hChosen ⊢
          simp [Flow.givenIn?, hOwn, hChosen]
  | none =>
      obtain ⟨target, hTold, hResult⟩ := exists_of_bind_eq_ok hResult
      obtain rfl := eq_of_announced hTold
      cases hResult
      refine List.mem_append_right _ (Option.mem_toList.mpr ?_)
      change ((Value.field s.config "defaultTarget").orElse .null).isVoid = false at hChosen
      change Flow.givenIn? "defaultTarget" (.map s.config) =
        some ((Value.field s.config "defaultTarget").orElse .null)
      unfold Value.orElse at hChosen ⊢
      cases hGiven : (Value.field s.config "defaultTarget").isVoid with
      | true =>
          rw [hGiven] at hChosen
          cases hChosen
      | false => simp [Flow.givenIn?, Value.fields?, hGiven]

end Executor

end StepFlow
