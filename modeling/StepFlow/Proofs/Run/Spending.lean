import StepFlow.Proofs.Executor.Spending
import StepFlow.Proofs.Run.Shadow
import StepFlow.Proofs.Run.Touch

/-! What a run over the built-in executors has spent. Its ledger sums what its errands have cost,
but for the errands that are lost: the step fails on the answer, and the result that stands for the
failure tells no cost. -/
namespace StepFlow

variable {σ : Type}

namespace Engine

/-- An engine over a host with built-in executors. Each type of steps has one of them or none. -/
def builtin (host : Host σ) (kinds : String → Option Builtin) (settings : Settings) : Engine σ :=
  { host, executors := fun type => (kinds type).map (Builtin.executor host), settings }

/-- The same engine, which notes the errands of its steps. -/
def noting (host : Host σ) (kinds : String → Option Builtin) (settings : Settings) :
    Engine (σ × List Errand) :=
  { host := host.aside
    executors := fun type => (kinds type).map fun kind s => kind.executor (host.noting kind s) s
    settings }

/-- The walk of a run. -/
def course (e : Engine σ) (job : Job) (world : σ) : Progress σ × Plan.Ending :=
  (e.opening job world).1.walk (e.opening job world).2

/-- The errands of a run. -/
def errands (host : Host σ) (kinds : String → Option Builtin) (settings : Settings) (job : Job)
    (world : σ) : List Errand :=
  ((noting host kinds settings).course job (world, [])).1.world.2

variable {host : Host σ} {kinds : String → Option Builtin} {settings : Settings} {job : Job}
  {world : σ}

theorem shadows_noting : (noting host kinds settings).Shadows (builtin host kinds settings) := by
  refine ⟨rfl, fun type => ?_⟩
  change Option.Rel _ ((kinds type).map _) ((kinds type).map _)
  cases kinds type with
  | none => exact .none
  | some kind => exact .some fun s l b => (kind.notes_executor host s l b).inStep

/-- Noting errands changes nothing that a run comes to. -/
theorem outcome_noting :
    ((noting host kinds settings).run job (world, [])).1.outcome =
      ((builtin host kinds settings).run job world).1.outcome :=
  shadows_noting.outcome job world []

/-- A call notes the errands that it reports on. -/
theorem reports_of_served {executor : Executor (σ × List Errand)} {s : Step} {l : Ledger} {b : Budget}
    {w after : σ × List Errand} {outcome : Except Halt StepResult}
    (hServed : ((kinds s.type).map fun kind s => kind.executor (host.noting kind s) s) = some executor)
    (hCalled : (executor s l b).perform w = (outcome, after)) :
    Errand.counted after.2 = (Errand.counted w.2).add (Call.spent ⟨s, l, outcome⟩) := by
  obtain ⟨kind, -, rfl⟩ := Option.map_eq_some_iff.mp hServed
  obtain ⟨more, hPerform, hReports⟩ := kind.notes_executor host s l b w
  obtain ⟨rfl, rfl⟩ := Prod.mk.inj (hPerform.symm.trans hCalled)
  rw [Errand.counted_append, hReports]

/-- What is on the ledger of a run is what its errands have cost, the lost ones aside. -/
theorem usage_course :
    ((noting host kinds settings).course job (world, [])).1.ledger.usage =
      Errand.counted (errands host kinds settings job world) := by
  apply Plan.walk_preserves fun (p : Progress (σ × List Errand)) _ =>
    p.ledger.usage = Errand.counted p.world.2
  · rfl
  · intro p id rest hPrior _
    apply Plan.visit_keeps fun (w : σ × List Errand) l => l.usage = Errand.counted w.2
    · exact fun _ _ h => h
    · exact fun _ _ h => h
    · intro executor s l w after hServed hBefore hCalled
      rw [reports_of_served hServed hCalled, ← hBefore]
      exact (Usage.add_none _).symm
    · intro executor s l w after outcome started completed hServed hBefore hCalled
      rw [reports_of_served hServed hCalled, ← hBefore, Ledger.usage_append,
        ← Plan.spent_of_call (l := l)]
    · exact hPrior

/-- The usage of a result is that on the ledger at the end of its course. -/
theorem usage_of_outcome {e : Engine σ} {r : RunResult}
    (hOutcome : (e.run job world).1.outcome = .ok r) :
    r.usage = (e.course job world).1.ledger.usage := by
  by_cases hSteps : job.flow.steps = []
  · obtain ⟨ms, hEmpty⟩ := outcome_run_of_no_steps e world hSteps
    rw [hEmpty] at hOutcome
    cases hOutcome
    rw [course, Plan.walk_of_nil (pending_opening hSteps)]
    rfl
  · rw [outcome_run hSteps] at hOutcome
    change e.outcomeOf job _ (e.course job world) = _ at hOutcome
    obtain ⟨error, -, -, rfl⟩ := told_of_outcomeOf hOutcome
    rfl

/-- The usage of a run over the built-in executors is the sum of what its errands have cost, a reply
its usage and a search its tokens, except for those errands that are lost. -/
theorem usage_accounts_for_errands {r : RunResult}
    (hOutcome : ((builtin host kinds settings).run job world).1.outcome = .ok r) :
    let errands := errands host kinds settings job world
    ((noting host kinds settings).run job (world, [])).1.outcome = .ok r ∧
    r.usage = Usage.sum ((errands.filter fun x => !x.isLost).map Errand.spent) ∧
    r.usage.add (Usage.sum ((errands.filter Errand.isLost).map Errand.spent)) =
      Usage.sum (errands.map Errand.spent) := by
  intro errands
  have hNoted := outcome_noting.trans hOutcome
  have hUsage : r.usage = Errand.counted errands := by
    rw [usage_of_outcome hNoted]
    exact usage_course
  refine ⟨hNoted, hUsage, ?_⟩
  rw [hUsage]
  exact Errand.counted_add_lost errands

/-- A host whose model always gives one reply. -/
def replying (reply : Completion) : Host Unit :=
  { listRouting.host with callModel := fun _ => pure reply }

/-- A step that asks a model for JSON. -/
def tell : Step :=
  ⟨"tell", "llm", [("model", .text "m"), ("responseFormat", .text "json")], none, none, .unset, []⟩

/-- A run of that step alone. -/
def telling : Job := { soleRouter with flow := ⟨[tell], none⟩ }

/-- The step notes the reply, and its output is what is read from it. -/
theorem perform_tell (reply : Completion) (l : Ledger) (w : Unit × List Errand) :
    (Executor.completion ((replying reply).noting .llm tell) tell l ⟨.unlimited, 0.0⟩).perform w =
      (((Executor.completionOutput tell.config reply.content).map fun output =>
          (⟨output, reply.usage, none, .null, .map [("model", .text "m"),
            ("temperature", Executor.standardTemperature), ("maxTokens", Executor.standardMaxTokens),
            ("responseFormat", .text "json")]⟩ : StepResult)).mapError .fault,
        (w.1, w.2 ++ [⟨.llm, tell, .reply reply⟩])) := by
  have hPrompt : Expr.Template.resolveValue ((Value.field tell.config "systemPrompt").orElse
      (.text "")) l.context = .ok (.text "", []) := Expr.Template.resolveValue_empty _
  unfold Executor.completion
  simp only [hPrompt]
  change (Act.ofExcept (Executor.completionOutput tell.config reply.content) >>= _ :
    Act (Unit × List Errand) StepResult).perform (w.1, w.2 ++ [⟨.llm, tell, .reply reply⟩]) = _
  rw [Act.perform_bind]
  cases Executor.completionOutput tell.config reply.content <;> rfl

/-- The run of the step alone comes to its end, and the reply is its only errand. -/
theorem course_telling (reply : Completion) : ∃ p error,
    (noting (replying reply) Builtin.ofType? listRouting.settings).course telling ((), []) =
        (p, .finished error) ∧
      p.world.2 = [⟨.llm, tell, .reply reply⟩] := by
  let start := (noting (replying reply) Builtin.ofType? listRouting.settings).opening telling ((), [])
  have hDue : start.1.Due "tell" { start.2 with pending := [] } tell :=
    ⟨(by decide : (0 : Int) < 50), rfl, rfl⟩
  have hCleared : start.1.Cleared "tell" _ _ _ := { hDue with timely := rfl, admitted := nofun }
  obtain ⟨error, hWalk⟩ := Plan.walk_of_sole rfl hCleared rfl (perform_tell reply _ _) rfl (by decide)
  exact ⟨_, error, hWalk, rfl⟩

/-- The reply is the only errand of the run. -/
theorem errands_telling (reply : Completion) :
    errands (replying reply) Builtin.ofType? listRouting.settings telling () =
      [⟨.llm, tell, .reply reply⟩] := by
  obtain ⟨p, error, hCourse, hNoted⟩ := course_telling reply
  rw [errands, hCourse]
  exact hNoted

/-- The run returns what is left at its end, where what the reply has cost can be told. -/
theorem returns_telling {reply : Completion}
    (hTotal : (Value.int (Errand.counted [⟨.llm, tell, .reply reply⟩]).total).isWritable = true) :
    ∃ r, ((builtin (replying reply) Builtin.ofType? listRouting.settings).run telling ()).1.outcome =
      .ok r := by
  obtain ⟨p, error, hCourse, -⟩ := course_telling reply
  have hUsage : p.ledger.usage = Errand.counted [⟨.llm, tell, .reply reply⟩] := by
    rw [← errands_telling, ← usage_course, hCourse]
  rw [← hUsage] at hTotal
  rw [← outcome_noting, outcome_run (List.cons_ne_nil _ _)]
  change ∃ r, outcomeOf _ telling _ (course _ telling _) = .ok r
  rw [hCourse]
  exact ⟨_, outcomeOf_of_told (Progress.isTold_of_writable error hTotal) _⟩

theorem reply_accounted : ∃ r,
    ((builtin (replying ⟨.text "", some ⟨10, 5, 15⟩⟩) Builtin.ofType? listRouting.settings).run
        telling ()).1.outcome = .ok r ∧
      r.usage = ⟨10, 5, 15⟩ := by
  have hCounted : Errand.counted [⟨.llm, tell, .reply ⟨.text "", some ⟨10, 5, 15⟩⟩⟩] =
      ⟨10, 5, 15⟩ := Errand.counted_of_kept rfl
  have hTotal : (Value.int (15 : Int)).isWritable = true := Value.isWritable_int_iff.mpr (by decide)
  obtain ⟨r, hOutcome⟩ := returns_telling (by rw [hCounted]; exact hTotal)
  obtain ⟨-, hUsage, -⟩ := usage_accounts_for_errands hOutcome
  refine ⟨r, hOutcome, ?_⟩
  rw [hUsage, errands_telling]
  exact hCounted

/-- A reply that is an integer of too many digits makes the run lose what the reply has cost. -/
theorem long_numeral_loses_usage :
    let reply : Completion :=
      ⟨.text (String.ofList (List.replicate (Number.digitLimit + 1) '9')), some ⟨10, 5, 15⟩⟩
    ∃ r, ((builtin (replying reply) Builtin.ofType? listRouting.settings).run telling ()).1.outcome =
        .ok r ∧
      r.usage = Usage.none ∧
      Usage.sum ((errands (replying reply) Builtin.ofType? listRouting.settings telling ()).map
        Errand.spent) = ⟨10, 5, 15⟩ := by
  intro reply
  have hOverlong : Json.isOverlong reply.content = true :=
    Json.isOverlong_of_digits (Nat.lt_succ_self Number.digitLimit)
  have hLost : Errand.isLost ⟨.llm, tell, .reply reply⟩ = true := by
    unfold Errand.isLost
    simp only
    rw [hOverlong]
    rfl
  have hCounted : Errand.counted [⟨.llm, tell, .reply reply⟩] = Usage.none :=
    Errand.counted_of_lost hLost
  have hTotal : (Value.int (0 : Int)).isWritable = true := Value.isWritable_int_iff.mpr (by decide)
  obtain ⟨r, hOutcome⟩ := returns_telling (by rw [hCounted]; exact hTotal)
  have hSpent : Errand.spent ⟨.llm, tell, .reply reply⟩ = ⟨10, 5, 15⟩ := rfl
  have hNone : r.usage = Usage.none := by
    rw [usage_of_outcome (outcome_noting.trans hOutcome), usage_course, errands_telling]
    exact hCounted
  refine ⟨r, hOutcome, hNone, ?_⟩
  rw [errands_telling, List.map_singleton, hSpent]
  rfl

end Engine

end StepFlow
