import StepFlow.Proofs.Executor.Notes
import StepFlow.Proofs.Run.Escape
import StepFlow.Proofs.Run.Lockstep

/-! Runs beside which something is kept. What stands beside the world is read by nothing, so a run
that keeps something there goes the course of the run that it shadows and has its outcome. -/
namespace StepFlow

variable {σ τ α β ν : Type}

/-- An act that notes is in step with the act. -/
theorem Act.Notes.inStep {act : Act σ α} {noted : Act (σ × List ν) α}
    {post : Except Halt α → List ν → Prop} (h : Notes noted act post) :
    InStep (fun w v => v.1 = w) act.perform noted.perform := by
  rintro _ v rfl
  obtain ⟨more, hPerform, -⟩ := h v
  rw [hPerform]
  exact ⟨rfl, rfl⟩

namespace Engine

/-- What no reading of the clock changes is left at the end of a run as its walk has left it. -/
theorem seen_run (e : Engine σ) (job : Job) (world : σ) (see : σ → β)
    (hSeconds : ∀ w, see (e.host.seconds.run w).2 = see w) :
    see (e.run job world).2 =
      see ((e.opening job world).1.walk (e.opening job world).2).1.world := by
  unfold run
  by_cases hSteps : job.flow.steps = []
  · have hNone : job.flow.steps.isEmpty = true := by simp [hSteps]
    rw [Plan.walk_of_nil (pending_opening hSteps)]
    simp only [hNone, if_true]
    rfl
  · have hSome : job.flow.steps.isEmpty = false := by simpa using hSteps
    simp only [hSome, Bool.false_eq_true, if_false]
    unfold runSteps opening
    rcases e.host.seconds.run world with ⟨began, started⟩
    simp only
    rcases e.host.seconds.run started with ⟨startedAt, first⟩
    simp only
    rcases (job.plan e startedAt).walk (job.begin e.host.accountId first) with ⟨p, error | why⟩
    · exact hSeconds p.world
    · rfl

/-- An engine that does what another one does, and keeps something beside the world. -/
structure Shadows (shadow : Engine (σ × τ)) (e : Engine σ) : Prop where
  host : shadow.host = e.host.aside
  executors : ∀ type,
    Option.Rel (Executor.InStep fun w v => v.1 = w) (e.executors type) (shadow.executors type)

namespace Shadows

variable {shadow : Engine (σ × τ)} {e : Engine σ} (h : shadow.Shadows e) (job : Job) (world : σ)
  (kept : τ)

include h

theorem follows :
    Plan.Follows (fun w v => v.1 = w) (e.opening job world).1
      (shadow.opening job (world, kept)).1 := by
  have hAside : ∀ clock : StateM σ Float,
      InStep (fun w (v : σ × τ) => v.1 = w) clock.run (stateAside clock).run := by
    rintro clock _ v rfl
    exact ⟨rfl, rfl⟩
  have hExecutors := h.executors
  obtain ⟨host, executors, settings⟩ := shadow
  obtain rfl : host = e.host.aside := h.host
  exact ⟨rfl, rfl, hAside _, hAside _, hExecutors, Int.le_refl _, id⟩

/-- The run that keeps something goes the same course. -/
theorem course :
    ((e.opening job world).1.walk (e.opening job world).2).1.Alike (fun w v => v.1 = w)
        ((shadow.opening job (world, kept)).1.walk (shadow.opening job (world, kept)).2).1 ∧
      ((e.opening job world).1.walk (e.opening job world).2).2 =
        ((shadow.opening job (world, kept)).1.walk (shadow.opening job (world, kept)).2).2 := by
  have hFollows := h.follows job world kept
  obtain ⟨host, executors, settings⟩ := shadow
  obtain rfl : host = e.host.aside := h.host
  exact hFollows.walk_of_same rfl rfl ⟨rfl, rfl, rfl, rfl, rfl, rfl⟩

theorem outcomeOf {p : Progress σ} {q : Progress (σ × τ)} {ending : Plan.Ending} (began : Float)
    (hAlike : p.Alike (fun w v => v.1 = w) q) :
    shadow.outcomeOf job began (q, ending) = e.outcomeOf job began (p, ending) := by
  cases ending with
  | brokenOff why => rfl
  | finished error =>
      have hNow : (shadow.host.seconds.run q.world).1 = (e.host.seconds.run p.world).1 := by
        rw [h.host, ← hAlike.world]
        rfl
      simp only [Engine.outcomeOf, Job.result, hNow, hAlike.isTold_eq, hAlike.ledger, hAlike.traces,
        hAlike.lastOutput]

/-- What is kept beside the world changes nothing that a run comes to. -/
theorem outcome : (shadow.run job (world, kept)).1.outcome = (e.run job world).1.outcome := by
  have hBegan : ∀ w : σ × τ, shadow.host.seconds.run w =
      ((e.host.seconds.run w.1).1, ((e.host.seconds.run w.1).2, w.2)) := by
    intro w
    rw [h.host]
    rfl
  by_cases hSteps : job.flow.steps = []
  · have hNone : job.flow.steps.isEmpty = true := by simp [hSteps]
    simp only [run, hNone, if_true, hBegan]
    rfl
  · obtain ⟨hAlike, hEnd⟩ := h.course job world kept
    rw [outcome_run hSteps, outcome_run hSteps, hBegan]
    exact (congrArg (fun ending => shadow.outcomeOf job _ (_, ending)) hEnd.symm).trans
      (h.outcomeOf job _ hAlike)

end Shadows

end Engine

end StepFlow
