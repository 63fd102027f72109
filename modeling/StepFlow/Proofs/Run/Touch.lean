import StepFlow.Proofs.Run.Agreement

/-! What a visit does to the world. Besides reading clocks, it makes one call or none. So whatever
no clock changes, such as notes beside the world, is as it was or as that call has left it. -/
namespace StepFlow

variable {σ β : Type}

namespace Plan

variable {plan : Plan σ}

/-- What is seen of the world after a visit: what was seen before it, or what its one call has left
behind. -/
inductive Touches (plan : Plan σ) (id : String) (p : Progress σ) (see : σ → β) (seen : β) :
    Prop where
  | spared (hSame : seen = see p.world)
  | called {s : Step} {executor : Executor σ} {outcome : Except Halt StepResult} {w world : σ}
      (hStep : plan.flow.step? id = some s) (hServed : plan.executors s.type = some executor)
      (hBefore : see w = see p.world)
      (hCall : (executor s p.ledger plan.budget).perform w = (outcome, world))
      (hAfter : seen = see world)

/-- What is left at an end: something that was kept up to it, or, where a call was cancelled,
something else. -/
def Ending.Leaves (kept broken : σ → Ledger → Prop) (p : Progress σ) : Ending → Prop
  | .brokenOff .cancelled => broken p.world p.ledger
  | _ => kept p.world p.ledger

/-- It does not matter how the end came about where the same is left at all of them. -/
theorem leaves_iff_of_same {inv : σ → Ledger → Prop} {p : Progress σ} {ending : Ending} :
    ending.Leaves inv inv p ↔ inv p.world p.ledger := by
  rcases ending with error | (f | _)
  all_goals exact Iff.rfl

theorem leaves_afterFailure {kept broken : σ → Ledger → Prop} {q : Progress σ} {error : String}
    (h : kept q.world q.ledger) :
    (plan.afterFailure q error).parts.2.Leaves kept broken (plan.afterFailure q error).parts.1 := by
  unfold afterFailure
  split
  · exact h
  · exact h

/-- Once a result is written, only the clock is read any more, and nothing is added to the ledger. -/
theorem Settling.leaves {s : Step} {r : StepResult} {w : Progress σ} {v : Visited σ}
    {kept broken : σ → Ledger → Prop} (hSettling : plan.Settling s r w v)
    (hStamp : ∀ w l, kept w l → kept (plan.host.stamp.run w).2 l) (h : kept w.world w.ledger) :
    v.parts.2.Leaves kept broken v.parts.1 := by
  cases hSettling with
  | uncounted => exact h
  | exceeded => exact hStamp _ _ h
  | astray => exact h
  | aborted =>
      rw [Visited.parts, branched_eq]
      exact h
  | continued =>
      rw [Visited.parts, branched_eq]
      exact h

/-- Nothing that a result leads to touches the world, but for the clock. -/
theorem Settling.spares {s : Step} {r : StepResult} {w : Progress σ} {v : Visited σ} {see : σ → β}
    (h : plan.Settling s r w v) (hStamp : ∀ w, see (plan.host.stamp.run w).2 = see w) :
    see v.parts.1.world = see w.world := by
  have hLeaves : v.parts.2.Leaves (fun u _ => see u = see w.world) (fun u _ => see u = see w.world)
      v.parts.1 := h.leaves (fun u _ hSeen => (hStamp u).trans hSeen) rfl
  exact leaves_iff_of_same.mp hLeaves

/-- What the clocks keep, and answered calls with the entries that are written for them, every visit
keeps whose call is not cancelled. A call that is cancelled is that of a step without an entry. -/
theorem visit_leaves {plan : Plan σ} (kept broken : σ → Ledger → Prop)
    (hSeconds : ∀ w l, kept w l → kept (plan.host.seconds.run w).2 l)
    (hStamp : ∀ w l, kept w l → kept (plan.host.stamp.run w).2 l)
    (hCancelled : ∀ {executor : Executor σ} {s : Step} {l : Ledger} {w world : σ},
      plan.executors s.type = some executor → l.has s.id = false → kept w l →
      (executor s l plan.budget).perform w = (.error .cancelled, world) → broken world l)
    (hAnswered : ∀ {executor : Executor σ} {s : Step} {l : Ledger} {w world : σ}
      {outcome : Except Fault StepResult} (started completed : Float),
      plan.executors s.type = some executor → kept w l →
      (executor s l plan.budget).perform w = (outcome.mapError .fault, world) →
      kept world { l with
        entries := l.entries ++ [entryOf s started completed (resultOf outcome)] })
    (id : String) {p : Progress σ} (h : kept p.world p.ledger) :
    (plan.visit id p).parts.2.Leaves kept broken (plan.visit id p).parts.1 := by
  have hTurn := turn_visit plan id p
  generalize plan.visit id p = v at hTurn
  have hRead : ∀ {q : Progress σ} {v : Except Fault (Option Violation)},
      plan.checkTime p = (v, q) → kept q.world q.ledger := by
    intro q v hTime
    unfold checkTime at hTime
    split at hTime
    · cases hTime
      exact h
    · cases hTime
      exact hSeconds _ _ h
  cases hTurn with
  | capped => exact h
  | untold => exact h
  | unknown => exact leaves_afterFailure (hStamp _ _ h)
  | again => exact hStamp _ _ h
  | clockless _ hTime => exact hRead hTime
  | late _ hTime => exact hStamp _ _ (hRead hTime)
  | undecided _ hTime => exact hRead hTime
  | skipped _ hTime => exact hStamp _ _ (hRead hTime)
  | unserved hCleared => exact leaves_afterFailure (hStamp _ _ (hRead hCleared.timely))
  | @cancelled s q executor world hCleared hServed hCalled =>
      have hBefore : kept (plan.host.stamp.run q.world).2 q.ledger :=
        hStamp _ _ (hRead hCleared.timely)
      exact hCancelled hServed hCleared.fresh_after hBefore hCalled
  | @answered s q executor world outcome hCleared hServed hCalled =>
      have hBefore : kept (plan.host.stamp.run q.world).2 q.ledger :=
        hStamp _ _ (hRead hCleared.timely)
      have hWritten := hStamp _ _ (hAnswered (plan.times q world).1 (plan.times q world).2 hServed
        hBefore hCalled)
      exact (settling_afterResult plan s (resultOf outcome) _).leaves hStamp hWritten

/-- What cancelled calls keep as well, every visit keeps. -/
theorem visit_keeps {plan : Plan σ} (inv : σ → Ledger → Prop)
    (hSeconds : ∀ w l, inv w l → inv (plan.host.seconds.run w).2 l)
    (hStamp : ∀ w l, inv w l → inv (plan.host.stamp.run w).2 l)
    (hCancelled : ∀ {executor : Executor σ} {s : Step} {l : Ledger} {w world : σ},
      plan.executors s.type = some executor → inv w l →
      (executor s l plan.budget).perform w = (.error .cancelled, world) → inv world l)
    (hAnswered : ∀ {executor : Executor σ} {s : Step} {l : Ledger} {w world : σ}
      {outcome : Except Fault StepResult} (started completed : Float),
      plan.executors s.type = some executor → inv w l →
      (executor s l plan.budget).perform w = (outcome.mapError .fault, world) →
      inv world { l with
        entries := l.entries ++ [entryOf s started completed (resultOf outcome)] })
    (id : String) {p : Progress σ} (h : inv p.world p.ledger) :
    inv (plan.visit id p).parts.1.world (plan.visit id p).parts.1.ledger := by
  exact leaves_iff_of_same.mp
    (visit_leaves inv inv hSeconds hStamp (fun hServed _ => hCancelled hServed) hAnswered id h)

/-- Every visit makes one call or none. -/
theorem touches_visit (plan : Plan σ) (see : σ → β)
    (hSeconds : ∀ w, see (plan.host.seconds.run w).2 = see w)
    (hStamp : ∀ w, see (plan.host.stamp.run w).2 = see w) (id : String) (p : Progress σ) :
    plan.Touches id p see (see (plan.visit id p).parts.1.world) := by
  have hTurn := turn_visit plan id p
  generalize plan.visit id p = v at hTurn
  have hTimely : ∀ {q : Progress σ} {v : Except Fault (Option Violation)},
      plan.checkTime p = (v, q) → see q.world = see p.world := by
    intro q v hTime
    unfold checkTime at hTime
    split at hTime
    · cases hTime
      rfl
    · cases hTime
      exact hSeconds _
  cases hTurn with
  | capped => exact .spared rfl
  | untold => exact .spared rfl
  | unknown =>
      rw [visitUnknown, afterFailure_after]
      exact .spared (hStamp _)
  | again => exact .spared (hStamp _)
  | clockless _ hTime => exact .spared (hTimely hTime)
  | late _ hTime => exact .spared ((hStamp _).trans (hTimely hTime))
  | undecided _ hTime => exact .spared (hTimely hTime)
  | skipped _ hTime => exact .spared ((hStamp _).trans (hTimely hTime))
  | unserved hCleared =>
      rw [afterFailure_after]
      exact .spared ((hStamp _).trans (hTimely hCleared.timely))
  | @cancelled s q executor world hCleared hServed hCall =>
      have hLedger : q.ledger = p.ledger := by rw [checkTime_eq hCleared.timely]
      rw [call, hLedger] at hCall
      exact .called hCleared.step hServed ((hStamp _).trans (hTimely hCleared.timely)) hCall rfl
  | @answered s q executor world outcome hCleared hServed hCall =>
      have hLedger : q.ledger = p.ledger := by rw [checkTime_eq hCleared.timely]
      rw [call, hLedger] at hCall
      refine .called hCleared.step hServed ((hStamp _).trans (hTimely hCleared.timely)) hCall ?_
      rw [(settling_afterResult plan s (resultOf outcome) _).spares hStamp]
      exact hStamp _

/-- The call of a leg is what the executor of its step has come to in some world. -/
theorem performed_of_mem_legs {p : Progress (σ × List Call)} {l : Leg (σ × List Call)}
    (h : l ∈ plan.watched.legs p) : ∀ c ∈ l.calls,
      ∃ executor w, plan.executors c.step.type = some executor ∧
        c.outcome = ((executor c.step c.ledger plan.budget).perform w).1 := by
  intro c hNoted
  obtain ⟨_, _, -, -, -, hVisited⟩ := reaches_of_mem_legs h
  have hTouches : plan.watched.Touches l.item l.before Prod.snd l.after.world.2 := by
    rw [Leg.after, hVisited]
    exact touches_visit plan.watched Prod.snd (fun _ => rfl) (fun _ => rfl) l.item l.before
  cases hTouches with
  | spared hSame =>
      have hNone : l.calls = [] := Leg.gained_of_append (by rw [List.append_nil]; exact hSame)
      rw [hNone] at hNoted
      cases hNoted
  | @called s executor outcome w world hStep hServed hBefore hCall hAfter =>
      obtain ⟨plain, hPlain, rfl⟩ := Option.map_eq_some_iff.mp hServed
      cases hCall
      have hOne : l.calls =
          [⟨s, l.before.ledger, ((plain s l.before.ledger plan.budget).perform w.1).1⟩] := by
        apply Leg.gained_of_append
        rw [← hBefore]
        exact hAfter
      rw [hOne, List.mem_singleton] at hNoted
      rw [hNoted]
      exact ⟨plain, w.1, hPlain, rfl⟩

/-- Where an item can be carried out, an error is only told by the trace of a call. -/
theorem Adds.error_mem_answers {l : Leg (σ × List Call)} (h : plan.Adds l)
    (hCarried : ¬ plan.Strands l.item) : ∀ t ∈ l.traces, t.status = .error → t ∈ l.answers := by
  intro t hTrace hError
  cases h with
  | quiet hCalls hEntries hQueued hTold =>
      rcases hTold with ⟨hNone, -⟩ | ⟨status, now, error, metadata, hOne, -, -, hStrands⟩
      · rw [hNone] at hTrace
        cases hTrace
      · rw [hOne, List.mem_singleton] at hTrace
        rw [hTrace] at hError
        exact absurd (hStrands hError) hCarried
  | answered started completed told hCleared hCall hCalls hEntries hQueued hTraces hTold =>
      rw [Leg.answers, hCalls, hTraces]
      rw [hTraces, List.mem_cons] at hTrace
      rcases hTrace with rfl | hLater
      · exact List.mem_cons_self
      · obtain ⟨now, message, rfl⟩ := hTold.told t hLater
        cases hError
  | cancelled hCleared hCalls hEntries hQueued hTraces =>
      rw [hTraces] at hTrace
      cases hTrace

end Plan

end StepFlow
