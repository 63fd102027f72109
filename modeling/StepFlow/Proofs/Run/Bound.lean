import StepFlow.Proofs.Flow.Chain
import StepFlow.Proofs.Run.Gain

/-! How many items a run can take. Only a router that has not run queues a branch, a branch holds
no id twice, and a router runs once. So each router pays for at most one item of each id, whatever
the conditions, the executors and the cap of steps are. -/
namespace StepFlow

variable {σ : Type}

namespace Plan

variable {plan : Plan σ}

/-- A branch holds at most one item for each id of the flow. -/
theorem length_branchOf_le (plan : Plan σ) (c : Call) :
    (plan.branchOf c).length ≤ plan.flow.stepIds.toFinset.card := by
  unfold branchOf
  split
  · rename_i target hTarget
    split
    · apply Flow.length_le_of_nodup
      · exact (Flow.unseen_chain plan.flow [] target).nodup.filter _
      · intro id hId
        simp only [List.mem_filter, Bool.and_eq_true] at hId
        exact hId.2.1
    · exact Nat.zero_le _
  · exact Nat.zero_le _

theorem mem_openRouters {l : Ledger} {id : String} :
    id ∈ plan.openRouters l ↔
      id ∈ plan.flow.stepIds ∧ plan.isRouter id = true ∧ l.has id = false := by
  simp [openRouters]

/-- Only routers queue. -/
theorem isRouter_of_branchOf {c : Call} (hStep : plan.flow.step? c.step.id = some c.step)
    (hBranch : plan.branchOf c ≠ []) : plan.isRouter c.step.id = true := by
  unfold isRouter
  rw [hStep]
  by_cases hRouter : c.step.type = Flow.routerType
  · simp [hRouter]
  · have hNone : plan.target? c = none := by simp [target?, hRouter]
    exact absurd (branchOf_of_no_target hNone) hBranch

/-- What a run may still take: the items that wait, and for each router that has not run one item of
each id. -/
def weight (plan : Plan σ) (p : Progress σ) : Nat :=
  p.pending.length + (plan.openRouters p.ledger).toFinset.card * plan.flow.stepIds.toFinset.card

/-- A further entry opens no router, and closes that of its step. -/
theorem card_openRouters_le (plan : Plan σ) (l : Ledger) (e : Entry) :
    (plan.openRouters { l with entries := l.entries ++ [e] }).toFinset.card ≤
      (plan.openRouters l).toFinset.card := by
  apply Finset.card_le_card
  intro id hId
  rw [List.mem_toFinset] at hId ⊢
  exact (openRouters_sublist plan l e).subset hId

theorem card_openRouters_lt (plan : Plan σ) {l : Ledger} (e : Entry)
    (hOpen : e.stepId ∈ plan.openRouters l) :
    (plan.openRouters { l with entries := l.entries ++ [e] }).toFinset.card <
      (plan.openRouters l).toFinset.card := by
  apply Finset.card_lt_card
  refine ⟨?_, ?_⟩
  · intro id hId
    rw [List.mem_toFinset] at hId ⊢
    exact (openRouters_sublist plan l e).subset hId
  · intro hAll
    have hStill := hAll (List.mem_toFinset.mpr hOpen)
    rw [List.mem_toFinset, mem_openRouters, Ledger.has_append] at hStill
    simp at hStill

/-- A visit makes up for the items that it queues. -/
theorem Gain.weight_le {id : String} {p : Progress (σ × List Call)} {v : Visited (σ × List Call)}
    (h : plan.Gain id p v) : plan.watched.weight v.parts.1 ≤ plan.watched.weight p := by
  cases h with
  | quiet world told events hAfter =>
      rw [hAfter]
      exact Nat.le_refl _
  | @answered s q c outcome world started completed told events hCleared hCall hAfter =>
      rw [hAfter]
      unfold weight
      simp only [List.length_append]
      by_cases hBranch : plan.branchOf c = []
      · have hCard := card_openRouters_le plan.watched p.ledger
          (entryOf s started completed (resultOf outcome))
        have hPaid := Nat.mul_le_mul_right plan.watched.flow.stepIds.toFinset.card hCard
        rw [hBranch, List.length_nil]
        omega
      · -- only an open router queues, and its entry closes it: one router fewer pays for the branch
        have hStep : plan.flow.step? s.id = some s := by
          rw [id_of_step? hCleared.step]
          exact hCleared.step
        have hRouter : plan.isRouter s.id = true := by
          have hStepOf : plan.flow.step? c.step.id = some c.step := by rw [hCall]; exact hStep
          have hRouterOf := isRouter_of_branchOf hStepOf hBranch
          rwa [hCall] at hRouterOf
        have hOpen : s.id ∈ plan.watched.openRouters p.ledger :=
          mem_openRouters.mpr ⟨Flow.mem_stepIds_of_step? hStep, hRouter, hCleared.fresh⟩
        have hCard := card_openRouters_lt plan.watched
          (entryOf s started completed (resultOf outcome)) hOpen
        have hPaid := Nat.mul_le_mul_right plan.watched.flow.stepIds.toFinset.card hCard
        have hQueued : (plan.branchOf c).length ≤ plan.watched.flow.stepIds.toFinset.card :=
          length_branchOf_le plan c
        rw [Nat.succ_mul] at hPaid
        omega
  | cancelled world hCleared hAfter =>
      rw [hAfter]
      exact Nat.le_refl _

/-- Every item that is taken lowers what a run may still take. -/
theorem weight_visit_lt (plan : Plan σ) {p : Progress σ} {id : String} {rest : List String}
    (hPending : p.pending = id :: rest) :
    plan.weight (plan.visit id { p with pending := rest }).parts.1 < plan.weight p := by
  -- the gain is that of the visit with notes, and the weight reads no note
  have hGain := (gain_visit plan id (Progress.watched { p with pending := rest })).weight_le
  have hVisit : (plan.visit id { p with pending := rest }).parts.1 =
      (plan.watched.visit id (Progress.watched { p with pending := rest })).parts.1.unwatched := by
    change (plan.visit id (Progress.watched { p with pending := rest }).unwatched).parts.1 = _
    rw [← unwatched_visit]
    cases plan.watched.visit id (Progress.watched { p with pending := rest }) <;> rfl
  have hTaken : plan.weight { p with pending := rest } < plan.weight p := by
    have hFewer : rest.length < p.pending.length := by
      rw [hPending]
      exact Nat.lt_succ_self _
    exact Nat.add_lt_add_right hFewer _
  rw [hVisit]
  exact Nat.lt_of_le_of_lt hGain hTaken

theorem length_legs_le (plan : Plan σ) (p : Progress σ) : (plan.legs p).length ≤ plan.weight p := by
  fun_induction legs plan p with
  | case1 => exact Nat.zero_le _
  | case2 p id rest hPending q hVisit ih =>
      have hLess := weight_visit_lt plan hPending
      rw [hVisit] at hLess
      rw [List.length_cons]
      exact Nat.lt_of_le_of_lt ih hLess
  | case3 p id rest hPending q error hVisit =>
      exact Nat.lt_of_le_of_lt (Nat.zero_le _) (weight_visit_lt plan hPending)
  | case4 p id rest hPending q why hVisit =>
      exact Nat.lt_of_le_of_lt (Nat.zero_le _) (weight_visit_lt plan hPending)

/-- What a run has come to after it has taken so many items and gone on. -/
inductive Takes (plan : Plan σ) (start : Progress σ) : Nat → Progress σ → Prop where
  | none : Takes plan start 0 start
  | further {n : Nat} {p q : Progress σ} (hPrior : Takes plan start n p)
      (hLast : plan.next? p = some (.goesOn q)) : Takes plan start (n + 1) q

theorem Reaches.takes {start p : Progress σ} (h : plan.Reaches start p) :
    ∃ n, plan.Takes start n p := by
  induction h with
  | refl => exact ⟨0, .none⟩
  | step _ hLast ih =>
      obtain ⟨n, hTakes⟩ := ih
      exact ⟨n + 1, .further hTakes hLast⟩

theorem Takes.weight_le {start p : Progress σ} {n : Nat} (h : plan.Takes start n p) :
    n + plan.weight p ≤ plan.weight start := by
  induction h with
  | none => exact Nat.le_of_eq (Nat.zero_add _)
  | @further n p q _ hLast ih =>
      obtain ⟨id, rest, hPending, hVisit⟩ := next?_eq_some_iff.mp hLast
      have hLess := weight_visit_lt plan hPending
      rw [hVisit] at hLess
      change plan.weight q < plan.weight p at hLess
      omega

end Plan

namespace Engine

theorem weight_opening (e : Engine σ) (job : Job) (world : σ) :
    (e.opening job world).1.weight (e.opening job world).2 =
      job.flow.initialQueue.length +
        (job.flow.stepIds.toFinset.filter fun id => (e.opening job world).1.isRouter id).card *
          job.flow.stepIds.toFinset.card := by
  have hOpen : ((e.opening job world).1.openRouters (e.opening job world).2.ledger).toFinset =
      job.flow.stepIds.toFinset.filter fun id => (e.opening job world).1.isRouter id := by
    ext id
    rw [List.mem_toFinset, Plan.mem_openRouters, Finset.mem_filter, List.mem_toFinset]
    exact ⟨fun h => ⟨h.1, h.2.1⟩, fun h => ⟨h.1, h.2, rfl⟩⟩
  unfold Plan.weight
  rw [hOpen]
  rfl

/-- A run takes no more items than it begins with and, for each id of a router, one item of each id
of the flow. So it comes to its end however large the cap of steps is. -/
theorem items_bounded (e : Engine σ) (job : Job) (world : σ) :
    let (plan, start) := e.opening job world
    let ids := job.flow.stepIds.toFinset
    let routers := ids.filter fun id => plan.isRouter id
    let bound := job.flow.initialQueue.length + routers.card * ids.card
    (plan.legs start).length ≤ bound ∧
      (∃ n p, plan.Takes start n p ∧ plan.Stops p (plan.walk start)) ∧
      ∀ n p, plan.Takes start n p → n + p.pending.length ≤ bound := by
  have hWeight := weight_opening e job world
  refine ⟨?_, ?_, ?_⟩
  · exact (Plan.length_legs_le (e.opening job world).1 (e.opening job world).2).trans hWeight.le
  · obtain ⟨p, hReach, hStops⟩ := Plan.walk_stops (e.opening job world).1 (e.opening job world).2
    obtain ⟨n, hTakes⟩ := hReach.takes
    exact ⟨n, p, hTakes, hStops⟩
  · intro n p hTakes
    have hWaiting : n + p.pending.length ≤ n + (e.opening job world).1.weight p :=
      Nat.add_le_add_left (Nat.le_add_right _ _) n
    exact hWaiting.trans (hTakes.weight_le.trans hWeight.le)

end Engine

end StepFlow
