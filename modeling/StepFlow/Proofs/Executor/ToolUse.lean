import StepFlow.Proofs.Executor.Conduct
import StepFlow.Proofs.Executor.Toolbox

/-! What a tool step makes of the tool that it runs. Every run of a tool is noted beside the world.
A step runs one tool or none. Unless the tool has answered without an error, the step fails, and with
a message that is not empty, for an empty message would make a success of it. -/
namespace StepFlow

variable {σ α : Type}

/-- One run of a tool: the name that it is registered with, its input, and what it came to. -/
structure ToolRun where
  name : String
  input : Table Value
  outcome : Except Halt ToolResult

/-- A tool that notes its runs under a name. -/
def Tool.noting (name : String) (t : Tool σ) : Tool (σ × List ToolRun) :=
  { name := t.name
    description := t.description
    inputSchema := t.inputSchema
    run := fun input w =>
      (((t.run input).perform w.1).1, ((t.run input).perform w.1).2,
        w.2 ++ [⟨name, input, ((t.run input).perform w.1).1⟩]) }

/-- A toolbox whose tools note their runs. -/
def Toolbox.noting (b : Toolbox σ) : Toolbox (σ × List ToolRun) := b.map Tool.noting

/-- A host whose tools are those of a toolbox. -/
def Host.equipped (host : Host σ) (box : Toolbox σ) : Host σ := { host with callTool := box.call }

theorem Tool.notes_run (name : String) (t : Tool σ) (input : Table Value) :
    Act.Notes ((t.noting name).run input) (t.run input) fun outcome runs =>
      runs = [⟨name, input, outcome⟩] := fun _ => ⟨_, rfl, rfl⟩

namespace Toolbox

/-- What comes of asking for a tool, and the runs that are noted. A tool that is there is run once; of
one that is not, an error is told. -/
inductive Called (b : Toolbox σ) (c : ToolCall) :
    Except Halt ToolOutcome → List ToolRun → Prop where
  | unfit (f : Fault) : Called b c (.error (.fault f)) []
  | missing {message : String} (hTold : message ≠ "") : Called b c (.ok ⟨.null, some message⟩) []
  | halted {name : String} (hName : c.tool = .text name) (hTool : name ∈ b.names) (why : Halt) :
      Called b c (.error why) [⟨name, c.input, .error why⟩]
  | answered {name : String} (hName : c.tool = .text name) (hTool : name ∈ b.names)
      (r : ToolResult) : Called b c (.ok r.outcome) [⟨name, c.input, .ok r⟩]

theorem mem_names_of_get? {b : Toolbox σ} {name : String} {t : Tool σ}
    (h : b.tools.get? name = some t) : name ∈ b.names := by
  have hContains : b.tools.contains name = true := by
    unfold Table.contains
    rw [h]
    rfl
  exact (Table.contains_iff_mem_keys b.tools name).mp hContains

theorem notes_call (b : Toolbox σ) (c : ToolCall) :
    Act.Notes (b.noting.call c) (b.call c) (b.Called c) := by
  unfold noting call
  rcases b.find_map Tool.noting c.tool with ⟨f, hNoted, hFound⟩ | ⟨hNoted, hFound⟩ |
    ⟨name, t, hName, hTool, hNoted, hFound⟩
  all_goals rw [hNoted, hFound]
  · exact .ofExcept (r := .error f) (.unfit f)
  · change Act.Notes
      (Act.ofExcept c.tool.display >>= fun shown => pure ((b.map Tool.noting).missing shown))
      (Act.ofExcept c.tool.display >>= fun shown => pure (b.missing shown)) (b.Called c)
    simp only [missing_map]
    exact .compute (fun f _ => .unfit f) fun shown _ => .pure (.missing (by simp))
  · change Act.Notes
      (Act.ofExcept c.accountId.display >>= fun _ =>
        (t.noting name).run c.input >>= fun r => pure r.outcome)
      (Act.ofExcept c.accountId.display >>= fun _ => t.run c.input >>= fun r => pure r.outcome)
      (b.Called c)
    refine .compute (fun f _ => .unfit f) fun _ _ => ?_
    apply (t.notes_run name c.input).bind
    · rintro why _ rfl
      exact .halted hName (mem_names_of_get? hTool) why
    · rintro r _ rfl
      exact .pure (.answered hName (mem_names_of_get? hTool) r)

end Toolbox

namespace Executor

/-- The failure of a step, by a fault or by a result that says so. -/
def Failed : Except Halt StepResult → Prop
  | .ok r => r.failed = true
  | .error why => why ≠ .cancelled

/-- What a step makes of the outcome of its tool. -/
inductive Makes : Except Halt ToolResult → Except Halt StepResult → Prop where
  | cancelled : Makes (.error .cancelled) (.error .cancelled)
  | raised {f : Fault} {result : Except Halt StepResult} (hFailed : Failed result) :
      Makes (.error (.fault f)) result
  | reported {r : ToolResult} {message : String} (hError : r.isError = true)
      (hTold : message ≠ "") : Makes (.ok r) (.ok (.failure message r.output))
  | done {r : ToolResult} (metadata : Value) (hError : r.isError = false) :
      Makes (.ok r) (.ok ⟨r.output, none, none, .null, metadata⟩)

/-- What a tool step comes to, and the runs that are noted. It runs the tool that it names, if that is
listed and there, or it runs none and fails. -/
inductive Uses (box : Toolbox σ) (config : Table Value) (b : Budget) :
    Except Halt StepResult → List ToolRun → Prop where
  | none {result : Except Halt StepResult} (hFailed : Failed result) : Uses box config b result []
  | one {name : String} {input : Table Value} {outcome : Except Halt ToolResult}
      {result : Except Halt StepResult} (hName : toolName config = .text name)
      (hListed : Listed b.scopes.allowedTools (.text name)) (hTool : name ∈ box.names)
      (hMakes : Makes outcome result) : Uses box config b result [⟨name, input, outcome⟩]

theorem failed_of_message {message : String} (hTold : message ≠ "") :
    Failed (.ok (.failure message)) := StepResult.failed_failure hTold _

theorem failed_of_fault (f : Fault) : Failed (.error (.fault f)) := nofun

theorem failed_mapError {outcome : Except Fault StepResult} :
    Failed (outcome.mapError .fault) ↔ (Plan.resultOf outcome).failed = true := by
  cases outcome with
  | ok r => exact Iff.rfl
  | error f => exact iff_of_true (failed_of_fault f) (Plan.resultOf_error f).1

/-- Only an answer without an error makes a step that has not failed. The output of any answer is
that of the step. -/
theorem Makes.of_answered {told : Except Halt ToolResult} {outcome : Except Fault StepResult}
    (h : Makes told (outcome.mapError .fault)) :
    ((Plan.resultOf outcome).failed = false ↔ ∃ r, told = .ok r ∧ r.isError = false) ∧
      ∀ r, told = .ok r → (Plan.resultOf outcome).output = r.output := by
  generalize hResult : outcome.mapError Halt.fault = result at h
  cases h with
  | cancelled =>
      obtain ⟨f, -, hHalt⟩ := Act.eq_error_of_mapError hResult.symm
      cases hHalt
  | raised hFailed =>
      rw [← hResult, failed_mapError] at hFailed
      simp [hFailed]
  | @reported r message hError hTold =>
      rw [Act.mapError_eq_ok_iff.mp hResult]
      have hFailed : (Plan.resultOf (.ok (.failure message r.output))).failed = true :=
        StepResult.failed_failure hTold _
      refine ⟨by simp [hFailed, hError], ?_⟩
      rintro _ ⟨⟩
      rfl
  | @done r metadata hError =>
      rw [Act.mapError_eq_ok_iff.mp hResult]
      refine ⟨iff_of_true rfl ⟨r, rfl, hError⟩, ?_⟩
      rintro _ ⟨⟩
      rfl

/-- A step that is not cancelled has not failed just when its tool was run once, and answered without
an error. -/
theorem Uses.of_answered {box : Toolbox σ} {config : Table Value} {b : Budget}
    {outcome : Except Fault StepResult} {runs : List ToolRun}
    (h : Uses box config b (outcome.mapError .fault) runs) :
    ((Plan.resultOf outcome).failed = false ↔
      ∃ name input r, toolName config = .text name ∧ Listed b.scopes.allowedTools (.text name) ∧
        name ∈ box.names ∧ runs = [⟨name, input, .ok r⟩] ∧ r.isError = false) ∧
      ∀ run ∈ runs, ∀ r, run.outcome = .ok r → (Plan.resultOf outcome).output = r.output := by
  generalize hResult : outcome.mapError Halt.fault = result at h
  cases h with
  | none hFailed =>
      rw [← hResult, failed_mapError] at hFailed
      simp [hFailed]
  | @one name input told _ hName hListed hTool hMakes =>
      rw [← hResult] at hMakes
      obtain ⟨hAnswered, hOutput⟩ := hMakes.of_answered
      refine ⟨hAnswered.trans ⟨?_, ?_⟩, fun run hRun => ?_⟩
      · rintro ⟨r, rfl, hError⟩
        exact ⟨name, input, r, hName, hListed, hTool, rfl, hError⟩
      · rintro ⟨_, _, r, -, -, -, hRuns, hError⟩
        cases hRuns
        exact ⟨r, rfl, hError⟩
      · rw [List.mem_singleton.mp hRun]
        exact hOutput

/-- A tool step that is cancelled was cancelled in the one run of its tool. -/
theorem Uses.of_cancelled {box : Toolbox σ} {config : Table Value} {b : Budget}
    {runs : List ToolRun} (h : Uses box config b (.error .cancelled) runs) :
    ∃ run, runs = [run] ∧ run.outcome = .error .cancelled := by
  cases h with
  | none hFailed => exact absurd rfl hFailed
  | one hName hListed hTool hMakes =>
      cases hMakes with
      | cancelled => exact ⟨_, rfl, rfl⟩
      | raised hFailed => exact absurd rfl hFailed

variable {host : Host σ} {box : Toolbox σ} {s : Step} {l : Ledger} {b : Budget}

/-- The checks before a step calls out run no tool. -/
theorem notes_guard_equipped (host : Host σ) (box : Toolbox σ) (b : Budget) (model : Value)
    (tools : List Value) :
    Act.Notes ((host.aside.equipped box.noting).guard b model tools)
      ((host.equipped box).guard b model tools) fun outcome runs =>
        ∃ now, runs = [] ∧ outcome = (b.checkBefore now model tools).mapError .fault := by
  unfold Host.guard
  simp only
  split
  · exact notes_checkBefore (.pure ⟨0.0, rfl, rfl⟩)
  · exact notes_checkBefore fun w => ⟨[], by rw [List.append_nil]; rfl, _, rfl, rfl⟩

/-- A tool step uses one tool or none, and fails unless the tool has answered without an error. -/
theorem notes_runs (host : Host σ) (box : Toolbox σ) (s : Step) (l : Ledger) (b : Budget) :
    Act.Notes (toolUse (host.aside.equipped box.noting) s l b) (toolUse (host.equipped box) s l b)
      (Uses box s.config b) := by
  unfold toolUse
  simp only
  split
  · exact .pure (.none (failed_of_message (by simp)))
  apply (notes_guard_equipped host box b .null [toolName s.config]).bind
  · rintro why _ ⟨now, rfl, hFailed⟩
    obtain ⟨f, -, rfl⟩ := Act.eq_error_of_mapError hFailed
    exact .none (failed_of_fault f)
  rintro found _ ⟨now, rfl, hFound⟩
  have hCheck := Act.mapError_eq_ok_iff.mp hFound.symm
  let sub : Submission := ⟨.null, [toolName s.config]⟩
  cases found with
  | some v =>
      have hRefuses : b.Refuses now sub v.message :=
        Budget.exists_violation_iff.mp ⟨v, hCheck, rfl⟩
      exact .pure (.none (failed_of_message hRefuses.message_ne_empty))
  | none =>
      have hPermits : b.Permits now sub := Budget.checkBefore_eq_none_iff.mp hCheck
      have hListed : ∀ {name : String}, toolName s.config = .text name →
          Listed b.scopes.allowedTools (.text name) :=
        fun hName => hName ▸ hPermits.tools (toolName s.config) (List.mem_singleton_self _)
      apply Act.Notes.compute fun f _ => .none (failed_of_fault f)
      intro inputs _
      apply Act.Notes.compute fun f _ => .none (failed_of_fault f)
      intro params _
      apply (box.notes_call _).attempt.bind
      · rintro why runs ⟨rfl, hCalled⟩
        cases hCalled with
        | halted hName hTool => exact .one hName (hListed hName) hTool .cancelled
      · rintro (f | outcome) runs hCalled
        · have hUses : ∀ {result : Except Halt StepResult}, Failed result →
              Uses box s.config b result (runs ++ []) := by
            intro result hFailed
            rw [List.append_nil]
            cases hCalled with
            | unfit => exact .none hFailed
            | halted hName hTool => exact .one hName (hListed hName) hTool (.raised hFailed)
          apply Act.Notes.compute fun g _ => hUses (failed_of_fault g)
          intro shown _
          exact .pure (hUses (failed_of_message (f.messageOr_ne_empty (by simp))))
        · cases hCalled with
          | @missing message hTold =>
              have hSome : message.isEmpty = false := by simpa [String.isEmpty_iff] using hTold
              simp only [hSome, Bool.false_eq_true, if_false]
              exact .pure (.none (failed_of_message hTold))
          | @answered name hName hTool r =>
              have hUses : ∀ {result : StepResult}, Makes (.ok r) (.ok result) →
                  Uses box s.config b (.ok result) [⟨name, Table.merge params inputs, .ok r⟩] :=
                fun hMakes => .one hName (hListed hName) hTool hMakes
              unfold ToolResult.outcome
              cases hError : r.isError with
              | false => exact .pure (hUses (.done _ hError))
              | true =>
                  by_cases hEmpty : r.text = ""
                  · simp only [hEmpty]
                    exact .pure (hUses (.reported hError (by simp)))
                  · have hTold : r.text.isEmpty = false := by
                      simpa [String.isEmpty_iff] using hEmpty
                    simp only [hTold, if_true, Bool.false_eq_true, if_false]
                    exact .pure (hUses (.reported hError hEmpty))

end Executor

end StepFlow
