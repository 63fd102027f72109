import StepFlow.Run.Visit

/-!
Walking through the queue. A visit takes one item and may queue a branch, but only when a router
has just run for the first time. So each visit leaves fewer routers that have not run, or as many
and fewer items, and every run comes to its end whatever its cap of steps.
-/
namespace StepFlow

variable {σ : Type}

namespace Progress

@[simp] theorem read_ledger (p : Progress σ) (clock : StateM σ Float) :
    (p.read clock).2.ledger = p.ledger := rfl

@[simp] theorem read_pending (p : Progress σ) (clock : StateM σ Float) :
    (p.read clock).2.pending = p.pending := rfl

@[simp] theorem withEvent_ledger (p : Progress σ) (e : Log.Event) :
    (p.withEvent e).ledger = p.ledger := rfl

@[simp] theorem withEvent_pending (p : Progress σ) (e : Log.Event) :
    (p.withEvent e).pending = p.pending := rfl

@[simp] theorem withInstant_ledger (p : Progress σ) (host : Host σ) (id type : String)
    (status : Status) (error : Option String) (metadata : Value) :
    (p.withInstant host id type status error metadata).ledger = p.ledger := rfl

@[simp] theorem withInstant_pending (p : Progress σ) (host : Host σ) (id type : String)
    (status : Status) (error : Option String) (metadata : Value) :
    (p.withInstant host id type status error metadata).pending = p.pending := rfl

@[simp] theorem withEvent_traces (p : Progress σ) (e : Log.Event) :
    (p.withEvent e).traces = p.traces := rfl

@[simp] theorem withInstant_traces (p : Progress σ) (host : Host σ) (id type : String)
    (status : Status) (error : Option String) (metadata : Value) :
    (p.withInstant host id type status error metadata).traces =
      p.traces ++ [.instant id type status (host.stamp.run p.world).1 error metadata] := rfl

@[simp] theorem withFailure_ledger (p : Progress σ) (host : Host σ) (id type error : String) :
    (p.withFailure host id type error).ledger = p.ledger := rfl

@[simp] theorem withFailure_pending (p : Progress σ) (host : Host σ) (id type error : String) :
    (p.withFailure host id type error).pending = p.pending := rfl

@[simp] theorem withFailure_traces (p : Progress σ) (host : Host σ) (id type error : String) :
    (p.withFailure host id type error).traces =
      p.traces ++ [.instant id type .error (host.stamp.run p.world).1 (some error) .null] := rfl

@[simp] theorem withViolation_ledger (p : Progress σ) (host : Host σ) (s : Step) (v : Violation) :
    (p.withViolation host s v).ledger = p.ledger := rfl

@[simp] theorem withViolation_traces (p : Progress σ) (host : Host σ) (s : Step) (v : Violation) :
    (p.withViolation host s v).traces =
      p.traces ++ [.instant s.id s.type .scopeViolation (host.stamp.run p.world).1
        (some v.message) (.map [("violationType", .text v.type.word)])] := rfl

end Progress

namespace Plan

/-- Whether an id is that of a router. -/
def isRouter (plan : Plan σ) (id : String) : Bool :=
  match plan.flow.step? id with
  | some s => s.type = Flow.routerType
  | none => false

/-- The routers that have not run. -/
def openRouters (plan : Plan σ) (l : Ledger) : List String :=
  plan.flow.stepIds.filter fun id => plan.isRouter id && !l.has id

/-- What going on after a visit means: the items are the same and no more routers are open, or
fewer routers are open. -/
def Advances (plan : Plan σ) (p : Progress σ) (v : Visited σ) : Prop :=
  ∀ p', v = .goesOn p' →
    (p'.pending = p.pending ∧
        (plan.openRouters p'.ledger).length ≤ (plan.openRouters p.ledger).length) ∨
      (plan.openRouters p'.ledger).length < (plan.openRouters p.ledger).length

theorem advances_of_same {plan : Plan σ} {p q : Progress σ} (hl : q.ledger = p.ledger)
    (hp : q.pending = p.pending) : plan.Advances p (.goesOn q) := by
  intro p' h
  cases h
  exact .inl ⟨hp, Nat.le_of_eq (congrArg (fun l => (plan.openRouters l).length) hl)⟩

theorem advances_afterFailure {plan : Plan σ} {p q : Progress σ} {error : String}
    (h : plan.Advances p (.goesOn q)) : plan.Advances p (plan.afterFailure q error) := by
  intro p' h'
  unfold afterFailure at h'
  split at h'
  · simp at h'
  · exact h p' h'

/-- A further entry opens no router. -/
theorem openRouters_sublist (plan : Plan σ) (l : Ledger) (e : Entry) :
    (plan.openRouters { l with entries := l.entries ++ [e] }).Sublist (plan.openRouters l) := by
  have h : plan.openRouters { l with entries := l.entries ++ [e] } =
      (plan.openRouters l).filter fun id => id ≠ e.stepId := by
    simp only [openRouters, List.filter_filter]
    congr 1
    funext id
    by_cases he : e.stepId = id
    · simp [Ledger.has, Ledger.entry?, List.find?_append, he]
    · simp [Ledger.has, Ledger.entry?, List.find?_append, he, Ne.symm he]
  rw [h]
  exact List.filter_sublist

/-- Writing the entry of a router closes it. -/
theorem openRouters_length_lt {plan : Plan σ} {l : Ledger} {e : Entry} {s : Step}
    (hs : plan.flow.step? e.stepId = some s) (hr : s.type = Flow.routerType)
    (hnew : l.has e.stepId = false) :
    (plan.openRouters { l with entries := l.entries ++ [e] }).length <
      (plan.openRouters l).length := by
  have hmem : e.stepId ∈ plan.openRouters l := by
    simp only [openRouters, List.mem_filter, hnew, Bool.not_false, Bool.and_true]
    refine ⟨Flow.mem_stepIds_of_step? hs, ?_⟩
    simp [isRouter, hs, hr]
  have hnot : e.stepId ∉ plan.openRouters { l with entries := l.entries ++ [e] } := by
    simp [openRouters, Ledger.has, Ledger.entry?, List.find?_append]
  refine Nat.lt_of_le_of_ne (openRouters_sublist plan l e).length_le fun hlen => hnot ?_
  rw [(openRouters_sublist plan l e).eq_of_length hlen]
  exact hmem

theorem openRouters_length_le (plan : Plan σ) (l : Ledger) (e : Entry) :
    (plan.openRouters { l with entries := l.entries ++ [e] }).length ≤
      (plan.openRouters l).length := (openRouters_sublist plan l e).length_le

theorem id_of_step? {f : Flow} {id : String} {s : Step} (h : f.step? id = some s) : s.id = id := by
  have := List.find?_some h
  simpa using this

/-- Only a router has a target to choose. -/
theorem type_of_chosenTarget {plan : Plan σ} {s : Step} {r : StepResult} {id : String}
    (h : plan.chosenTarget s r = .ok (some id)) : s.type = Flow.routerType := by
  unfold chosenTarget at h
  split at h
  · rename_i hr
    simp only [Bool.and_eq_true, decide_eq_true_eq] at hr
    exact hr.1
  · simp at h

/-- A branch is only queued when its router has just been written. -/
theorem advances_branched {plan : Plan σ} {p q : Progress σ} {s : Step} {r : StepResult}
    {e : Entry} {target : Option String} (hs : plan.flow.step? e.stepId = some s)
    (hnew : p.ledger.has e.stepId = false) (htarget : plan.chosenTarget s r = .ok target)
    (hl : q.ledger = { p.ledger with entries := p.ledger.entries ++ [e] })
    (hp : q.pending = p.pending) : plan.Advances p (.goesOn (plan.branched s q target)) := by
  intro p' h
  cases target with
  | none =>
    cases h
    exact .inl ⟨hp, by rw [branched, hl]; exact openRouters_length_le plan p.ledger e⟩
  | some id =>
    cases h
    refine .inr ?_
    have hlt := openRouters_length_lt hs (type_of_chosenTarget htarget) hnew
    simpa [branched, withBranch, hl] using hlt

theorem advances_afterResult {plan : Plan σ} {p q : Progress σ} {s : Step} {r : StepResult}
    {e : Entry} (hs : plan.flow.step? e.stepId = some s) (hnew : p.ledger.has e.stepId = false)
    (hl : q.ledger = { p.ledger with entries := p.ledger.entries ++ [e] })
    (hp : q.pending = p.pending) : plan.Advances p (plan.afterResult s r q) := by
  unfold afterResult
  split
  · intro p' h
    simp at h
  · intro p' h
    simp at h
  · split
    · intro p' h
      simp at h
    · rename_i target htarget
      have hgo := advances_branched hs hnew htarget hl hp
      simp only
      split
      · exact advances_afterFailure hgo
      · exact hgo

theorem advances_dispatch {plan : Plan σ} {p q : Progress σ} {s : Step}
    (hs : plan.flow.step? s.id = some s) (hnew : p.ledger.has s.id = false)
    (hl : q.ledger = p.ledger) (hp : q.pending = p.pending) :
    plan.Advances p (plan.dispatch s q) := by
  unfold dispatch
  split
  · unfold execute
    simp only
    split
    · intro p' h
      simp at h
    · rename_i outcome world _
      unfold conclude
      simp only
      split
      · intro p' h
        simp at h
      · rename_i hwritten
        obtain ⟨-, rfl⟩ := recorded_eq_ok hwritten
        refine advances_afterResult
          (e := entryOf s (q.read plan.host.stamp).1
            (Progress.read { (q.read plan.host.stamp).2 with world } plan.host.stamp).1
            (resultOf outcome)) hs hnew ?_ ?_
        · simp only [Progress.read_ledger, hl]
        · simp only [Progress.read_pending, hp]
  · exact advances_afterFailure (advances_of_same (by simp [hl]) (by simp [hp]))

theorem advances_visitConditioned {plan : Plan σ} {p q : Progress σ} {s : Step}
    (hs : plan.flow.step? s.id = some s) (hnew : p.ledger.has s.id = false)
    (hl : q.ledger = p.ledger) (hp : q.pending = p.pending) :
    plan.Advances p (plan.visitConditioned s q) := by
  unfold visitConditioned
  split
  · exact advances_dispatch hs hnew hl hp
  · split
    · exact advances_dispatch hs hnew hl hp
    · split
      · intro p' h
        simp at h
      · exact advances_dispatch hs hnew hl hp
      · exact advances_of_same (by simp [hl]) (by simp [hp])

/-- Every visit after which a run goes on brings it nearer to its end. -/
theorem advances_visit (plan : Plan σ) (id : String) (p : Progress σ) :
    plan.Advances p (plan.visit id p) := by
  unfold visit
  split
  · intro p' h
    unfold stopAtCap at h
    split at h <;> cases h
  split
  · exact advances_afterFailure (advances_of_same (by simp) (by simp))
  · rename_i s hs
    have hid := id_of_step? hs
    unfold visitStep
    split
    · exact advances_of_same rfl rfl
    · rename_i hnew
      have hnew' : p.ledger.has s.id = false := by simpa using hnew
      split
      · intro p' h
        simp at h
      · intro p' h
        simp at h
      · rename_i q hq
        have hsame : q.ledger = p.ledger ∧ q.pending = p.pending := by
          unfold checkTime at hq
          split at hq
          · simp only [Prod.mk.injEq] at hq
            rw [← hq.2]
            exact ⟨rfl, rfl⟩
          · simp only [Prod.mk.injEq] at hq
            rw [← hq.2]
            exact ⟨rfl, rfl⟩
        rw [← hid] at hs
        exact advances_visitConditioned hs hnew' hsame.1 hsame.2

/-- How a walk comes to its end: through the whole queue or at an error, or broken off. -/
inductive Ending where
  | finished (error : Option String)
  | brokenOff (why : Halt)

/-- Visits the items of the queue, the ones queued on the way included. -/
def walk (plan : Plan σ) (p : Progress σ) : Progress σ × Ending :=
  match _hp : p.pending with
  | [] => (p, .finished none)
  | id :: rest =>
    match _hv : plan.visit id { p with pending := rest } with
    | .goesOn q => plan.walk q
    | .ended q error => (q, .finished (some error))
    | .brokenOff q why => (q, .brokenOff why)
termination_by ((plan.openRouters p.ledger).length, p.pending.length)
decreasing_by
  rcases advances_visit plan id { p with pending := rest } q _hv with ⟨hpending, hle⟩ | hlt
  · rcases Nat.lt_or_eq_of_le hle with hlt | heq
    · exact Prod.Lex.left _ _ hlt
    · have hlen : q.pending.length < p.pending.length := by
        rw [hpending, _hp, List.length_cons]
        exact Nat.lt_succ_self _
      rw [heq]
      exact Prod.Lex.right _ hlen
  · exact Prod.Lex.left _ _ hlt

end Plan

end StepFlow
