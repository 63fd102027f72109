import StepFlow.Proofs.Executor.ToolUse
import StepFlow.Proofs.Run.Touch

/-! Tool steps in a run. What a tool step comes to is told by one trace and one entry of the ledger.
The trace says that the step completed just when its tool was run once, and answered without an
error. -/
namespace StepFlow

variable {σ : Type}

namespace Toolbox

/-- The ways in which a tool fails its step: it is not there, it raises something, or it answers with
an error. -/
inductive Fails (box : Toolbox σ) (config : Table Value) (runs : List ToolRun) : Prop where
  | missing (hMissing : ∀ name, Executor.toolName config = .text name → name ∉ box.names)
  | raised {run : ToolRun} {f : Fault} (hRun : run ∈ runs)
      (hOutcome : run.outcome = .error (.fault f))
  | reported {run : ToolRun} {r : ToolResult} (hRun : run ∈ runs) (hOutcome : run.outcome = .ok r)
      (hError : r.isError = true)

/-- What is recorded of a tool step in its trace and on the ledger, by the runs of tools. -/
structure Recorded (box : Toolbox σ) (b : Budget) (s : Step) (runs : List ToolRun) (t : Trace)
    (l : Ledger) : Prop where
  stepId : t.stepId = s.id
  completed_iff : t.status = .completed ↔
    ∃ name input r, Executor.toolName s.config = .text name ∧
      Listed b.scopes.allowedTools (.text name) ∧ name ∈ box.names ∧
      runs = [⟨name, input, .ok r⟩] ∧ r.isError = false
  otherwise : t.status ≠ .completed → t.status = .error ∧ t.tellsError
  failed : box.Fails s.config runs → t.status = .error ∧ t.tellsError
  output : ∀ run ∈ runs, ∀ r, run.outcome = .ok r → l.output s.id = r.output

end Toolbox

namespace Plan

theorem traceOf_completed_iff {s : Step} {started completed : Float} {r : StepResult} :
    (traceOf s started completed r).status = .completed ↔ r.failed = false := by
  unfold traceOf
  cases r.failed <;> simp

theorem traceOf_failed {s : Step} {started completed : Float} {r : StepResult}
    (hFailed : r.failed = true) : (traceOf s started completed r).status = .error ∧
      (traceOf s started completed r).tellsError :=
  ⟨by simp [traceOf, hFailed], (StepResult.failed_iff r).mp hFailed⟩

variable {plan : Plan σ} {host : Host σ} {box : Toolbox σ} {id : String} {p q : Progress σ}
  {s : Step}

/-- What is recorded of an answered tool step, where its output is on the ledger. -/
theorem recorded_of_uses {outcome : Except Fault StepResult} {runs : List ToolRun} {b : Budget}
    {started completed : Float} {l : Ledger}
    (hUses : Executor.Uses box s.config b (outcome.mapError .fault) runs)
    (hOutput : l.output s.id = (resultOf outcome).output) :
    box.Recorded b s runs (traceOf s started completed (resultOf outcome)) l := by
  obtain ⟨hDone, hAnswers⟩ := hUses.of_answered
  have hFailed : (resultOf outcome).failed ≠ false →
      (traceOf s started completed (resultOf outcome)).status = .error ∧
        (traceOf s started completed (resultOf outcome)).tellsError :=
    fun h => traceOf_failed (by simpa using h)
  refine ⟨rfl, traceOf_completed_iff.trans hDone,
    fun h => hFailed (mt traceOf_completed_iff.mpr h), fun hFails => hFailed fun hNot => ?_,
    fun run hRun r hTold => hOutput.trans (hAnswers run hRun r hTold)⟩
  -- a step that has not failed has one run, of a tool that is there, and that run has no error
  obtain ⟨name, input, r, hName, -, hTool, rfl, hError⟩ := hDone.mp hNot
  cases hFails with
  | missing hMissing => exact hMissing name hName hTool
  | raised hRun hOutcome =>
      rw [List.mem_singleton.mp hRun] at hOutcome
      cases hOutcome
  | reported hRun hOutcome hReported =>
      rw [List.mem_singleton.mp hRun] at hOutcome
      cases hOutcome
      rw [hError] at hReported
      cases hReported

/-- A visit whose call is answered has one trace and one entry of the answer. -/
theorem visit_records {executor : Executor σ} {world : σ} {outcome : Except Fault StepResult}
    (hCleared : plan.Cleared id p s q) (hServed : plan.executors s.type = some executor)
    (hCall : plan.call executor s q = (outcome.mapError .fault, world)) :
    ∃ started completed told,
      (plan.visit id p).parts.1.traces =
        p.traces ++ traceOf s started completed (resultOf outcome) :: told ∧
      (∀ t ∈ told, t.status = .scopeViolation) ∧
      (plan.visit id p).parts.1.ledger.output s.id = (resultOf outcome).output := by
  let r := resultOf outcome
  obtain ⟨hLedger, told, hTraces, hTold⟩ :=
    (settling_afterResult plan s r (plan.settled s q world r)).told
  rw [visit_of_answered hCleared hServed hCall]
  refine ⟨(plan.times q world).1, (plan.times q world).2, told, ?_, hTold, ?_⟩
  · have hBefore : q.traces = p.traces := by rw [checkTime_eq hCleared.timely]
    rw [hTraces, List.append_cons, ← hBefore]
    rfl
  · rw [hLedger]
    exact Ledger.output_append hCleared.fresh_after

/-- A tool step is traced as completed just when its tool is allowed and there, was run once, and
answered without an error. A tool that is missing, that raises something or that answers with an
error makes the trace one of an error with a message. What a tool answers is on the ledger in any
case. Only where the run of the tool is cancelled, nothing is recorded. -/
theorem no_tool_failure_completes (hCleared : plan.Cleared id p s q)
    (hServed : plan.executors s.type = some (Executor.toolUse (host.equipped box))) :
    ∃ outcome world runs,
      plan.call (Executor.toolUse (host.equipped box)) s q = (outcome, world) ∧
      (Executor.toolUse (host.aside.equipped box.noting) s q.ledger plan.budget).perform
        ((plan.host.stamp.run q.world).2, []) = (outcome, (world, runs)) ∧
      ((∃ run, runs = [run] ∧ run.outcome = .error .cancelled ∧
          plan.visit id p = .brokenOff { q with world } .cancelled) ∨
        ∃ t told, (plan.visit id p).parts.1.traces = p.traces ++ t :: told ∧
          (∀ t ∈ told, t.status = .scopeViolation) ∧
          box.Recorded plan.budget s runs t (plan.visit id p).parts.1.ledger) := by
  rcases hCall : plan.call (Executor.toolUse (host.equipped box)) s q with ⟨outcome, world⟩
  have hPerform : (Executor.toolUse (host.equipped box) s q.ledger plan.budget).perform
      (plan.host.stamp.run q.world).2 = (outcome, world) := hCall
  obtain ⟨runs, hNoted, hUses⟩ := Executor.notes_runs host box s q.ledger plan.budget
    ((plan.host.stamp.run q.world).2, [])
  rw [hPerform] at hNoted hUses
  refine ⟨outcome, world, runs, rfl, hNoted, ?_⟩
  have hAnswered : ∀ answer : Except Fault StepResult, outcome = answer.mapError .fault →
      ∃ t told, (plan.visit id p).parts.1.traces = p.traces ++ t :: told ∧
        (∀ t ∈ told, t.status = .scopeViolation) ∧
        box.Recorded plan.budget s runs t (plan.visit id p).parts.1.ledger := by
    rintro answer rfl
    obtain ⟨started, completed, told, hTraces, hTold, hOutput⟩ :=
      visit_records hCleared hServed hCall
    exact ⟨_, told, hTraces, hTold, recorded_of_uses hUses hOutput⟩
  rcases outcome with (f | _) | r
  · exact .inr (hAnswered (.error f) rfl)
  · obtain ⟨run, hRuns, hCancelled⟩ := hUses.of_cancelled
    exact .inl ⟨run, hRuns, hCancelled, visit_of_cancelled hCleared hServed hCall⟩
  · exact .inr (hAnswered (.ok r) rfl)

/-- A toolbox with one tool, which reports an error and says nothing. -/
def muteBox : Toolbox Unit :=
  ⟨[("t", ⟨.text "t", .text "mute", .map [], fun _ => pure ⟨"", true, .null⟩⟩)]⟩

def muteStep : Step := ⟨"a", "tool", [("tool", .text "t")], none, none, .unset, []⟩

/-- A plan with one step, which uses that tool. -/
def mutePlan : Plan Unit :=
  { flow := ⟨[muteStep], none⟩
    budget := ⟨{ Scopes.unlimited with allowedTools := ["t"] }, 0.0⟩
    host := Engine.listRouting.host.equipped muteBox
    executors := fun _ => some (Executor.toolUse (Engine.listRouting.host.equipped muteBox))
    abortOnError := true
    maxSteps := 50 }

def muteStart : Progress Unit :=
  ⟨(), .start ⟨"manual", none, none, none, none, none, none⟩ [], [], [], .null, 0, []⟩

/-- The tool is run and says nothing, and yet its step is traced with a message, and its output is on
the ledger. -/
theorem mute_error_told :
    mutePlan.Cleared "a" muteStart muteStep muteStart ∧
    mutePlan.executors muteStep.type =
      some (Executor.toolUse (Engine.listRouting.host.equipped muteBox)) ∧
    ∃ t told, (mutePlan.visit "a" muteStart).parts.1.traces = t :: told ∧ t.status = .error ∧
      t.tellsError ∧ (mutePlan.visit "a" muteStart).parts.1.ledger.output "a" = .text "" := by
  have hDue : mutePlan.Due "a" muteStart muteStep := ⟨by decide, rfl, rfl⟩
  have hCleared : mutePlan.Cleared "a" muteStart muteStep muteStart :=
    { hDue with timely := rfl, admitted := nofun }
  refine ⟨hCleared, rfl, ?_⟩
  obtain ⟨outcome, world, runs, -, hNoted, hEnd⟩ := no_tool_failure_completes hCleared rfl
  have hRuns : runs = [⟨"t", [], .ok ⟨"", true, .null⟩⟩] :=
    (congrArg (fun performed => performed.2.2) hNoted).symm
  rcases hEnd with ⟨run, hRun, hCancelled, -⟩ | ⟨t, told, hTraces, -, hRecorded⟩
  · rw [hRuns] at hRun
    cases hRun
    cases hCancelled
  · have hMem : ⟨"t", [], .ok ⟨"", true, .null⟩⟩ ∈ runs := by simp [hRuns]
    have hFailed := hRecorded.failed (.reported hMem rfl rfl)
    exact ⟨t, told, hTraces, hFailed.1, hFailed.2, hRecorded.output _ hMem _ rfl⟩

end Plan

end StepFlow
