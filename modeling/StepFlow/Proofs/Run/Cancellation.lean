import StepFlow.Proofs.Executor.Supplies
import StepFlow.Proofs.Run.Conduct
import StepFlow.Proofs.Run.Exit
import StepFlow.Proofs.Run.Spending

/-! The ways out of a run. A cancellation comes out of the run as it is, whoever is cancelled in it:
nobody else begins anything, the step that is interrupted is not written, and the run is not counted.
Whichever way a run comes to its end, its span is ended once. -/
namespace StepFlow

open Moment (Calm Interrupted Orderly Ends)

variable {σ : Type}

namespace Servant

/-- The same executor, tracked. If it is built in, its supplies are tracked as well. -/
def tracked (u : Supplies σ) (servant : Servant σ) : Executor (σ × List Moment) := fun s l b =>
  Act.tracked (.executor s)
    (match servant with
      | .builtin kind => kind.executor u.tracked s l b
      | .other executor => (executor s l b).aside)

theorem ends_tracked (u : Supplies σ) (servant : Servant σ) (s : Step) (l : Ledger) (b : Budget) :
    Act.Notes (servant.tracked u s l b) (servant.executor u.host s l b) (Ends (.executor s)) := by
  apply Act.Notes.tracked
  cases servant with
  | builtin kind => exact kind.orderly_executor u s l b
  | other executor => exact Act.Notes.orderly_aside _

end Servant

/-- Where a run was cancelled: a step without an entry was interrupted, and nobody had been cancelled
before it began. -/
def Ledger.CutShort (l : Ledger) (moments : List Moment) : Prop :=
  ∃ (s : Step) (calm more : List Moment), moments = calm ++ more ∧ Calm calm ∧
    Interrupted (.executor s) more ∧ s.id ∉ l.stepIds

theorem Ledger.CutShort.orderly {l : Ledger} {moments : List Moment} (h : l.CutShort moments) :
    Orderly (.error .cancelled : Except Halt StepResult) moments := by
  obtain ⟨s, calm, more, rfl, hCalm, hMore⟩ := h
  have hEnds : Ends (.executor s) (.error .cancelled : Except Halt StepResult) more := hMore.1
  exact hEnds.orderly.prepend hCalm

theorem Ledger.CutShort.exists_cancelled {l : Ledger} {moments : List Moment}
    (h : l.CutShort moments) : ∃ p, .cancelled p ∈ moments := by
  obtain ⟨s, calm, _, rfl, -, ⟨before, broken, rfl, -⟩, -⟩ := h
  refine ⟨.executor s, List.mem_append_right _ (List.mem_cons_of_mem _ ?_)⟩
  exact List.mem_append_right _ (List.mem_singleton_self _)

namespace Engine

/-- The same engine as one over the host of some supplies, with everybody tracked. -/
def tracking (u : Supplies σ) (staff : String → Option (Servant σ)) (settings : Settings) :
    Engine (σ × List Moment) :=
  { host := u.host.aside, executors := fun type => (staff type).map (Servant.tracked u), settings }

theorem shadows_tracking (u : Supplies σ) (staff : String → Option (Servant σ))
    (settings : Settings) :
    (tracking u staff settings).Shadows (staffed u.host staff settings) := by
  refine ⟨rfl, fun type => ?_⟩
  change Option.Rel _ ((staff type).map _) ((staff type).map _)
  cases staff type with
  | none => exact .none
  | some servant => exact .some fun s l b => (servant.ends_tracked u s l b).inStep

/-- What an executor has noted of a step when its call is over. -/
theorem ends_of_served {u : Supplies σ} {staff : String → Option (Servant σ)}
    {executor : Executor (σ × List Moment)} {s : Step} {l : Ledger} {b : Budget}
    {w after : σ × List Moment} {outcome : Except Halt StepResult}
    (hServed : ((staff s.type).map (Servant.tracked u)) = some executor)
    (hCalled : (executor s l b).perform w = (outcome, after)) :
    ∃ more, after.2 = w.2 ++ more ∧ Ends (.executor s) outcome more := by
  obtain ⟨servant, -, rfl⟩ := Option.map_eq_some_iff.mp hServed
  obtain ⟨more, hPerform, hEnds⟩ := servant.ends_tracked u s l b w
  obtain ⟨rfl, rfl⟩ := Prod.mk.inj (hPerform.symm.trans hCalled)
  exact ⟨more, rfl, hEnds⟩

variable (u : Supplies σ) (staff : String → Option (Servant σ)) (settings : Settings) (job : Job)
  (world : σ)

/-- Nobody is cancelled on the course of a run unless it is broken off there. -/
theorem leaves_course :
    ((tracking u staff settings).course job (world, [])).2.Leaves (fun w _ => Calm w.2)
      (fun w l => l.CutShort w.2) ((tracking u staff settings).course job (world, [])).1 := by
  apply Plan.walk_preserves fun (p : Progress (σ × List Moment)) ending =>
    ending.Leaves (fun w _ => Calm w.2) (fun w l => l.CutShort w.2) p
  · exact Moment.calm_nil
  · intro p id rest hPrior _
    apply Plan.visit_leaves
    · exact fun _ _ h => h
    · exact fun _ _ h => h
    · intro executor s l w after hServed hFresh hCalm hCalled
      obtain ⟨more, hAfter, hEnds⟩ := ends_of_served hServed hCalled
      refine ⟨s, w.2, more, hAfter, hCalm, hEnds, ?_⟩
      rw [← Ledger.has_iff_mem, hFresh]
      exact Bool.false_ne_true
    · intro executor s l w after outcome _ _ hServed hCalm hCalled
      obtain ⟨more, hAfter, hEnds⟩ := ends_of_served hServed hCalled
      rw [hAfter]
      cases outcome with
      | ok r => exact Moment.calm_append.mpr ⟨hCalm, hEnds⟩
      | error f => exact Moment.calm_append.mpr ⟨hCalm, hEnds⟩
    · exact hPrior

/-- A run that is cancelled was cut short, and in any other one nobody is cancelled. -/
theorem moments_run :
    let moments := ((tracking u staff settings).run job (world, [])).2.2
    let outcome := ((staffed u.host staff settings).run job world).1.outcome
    (outcome = .error .cancelled ∧
        ((staffed u.host staff settings).course job world).1.ledger.CutShort moments) ∨
      (outcome ≠ .error .cancelled ∧ Calm moments) := by
  intro moments outcome
  have hMoments : moments = ((tracking u staff settings).course job (world, [])).1.world.2 :=
    seen_run (tracking u staff settings) job (world, []) Prod.snd fun _ => rfl
  have hOutcome : ((tracking u staff settings).run job (world, [])).1.outcome = outcome :=
    (shadows_tracking u staff settings).outcome job world []
  have hLedger : ((staffed u.host staff settings).course job world).1.ledger =
      ((tracking u staff settings).course job (world, [])).1.ledger :=
    ((shadows_tracking u staff settings).course job world []).1.ledger
  have hEnd : outcome = .error .cancelled ↔
      ((tracking u staff settings).course job (world, [])).2 = .brokenOff .cancelled := by
    rw [← hOutcome, outcome_eq_cancelled_iff]
    exact ⟨fun ⟨q, hWalk⟩ => congrArg Prod.snd hWalk, fun hBroken => ⟨_, Prod.ext rfl hBroken⟩⟩
  have hLeaves := leaves_course u staff settings job world
  rw [ne_eq, hEnd, hLedger, hMoments]
  rcases hCourse : (tracking u staff settings).course job (world, []) with ⟨p, error | (f | _)⟩
  all_goals rw [hCourse] at hLeaves
  · exact .inr ⟨by simp, hLeaves⟩
  · exact .inr ⟨by simp, hLeaves⟩
  · exact .inl ⟨rfl, hLeaves⟩

/-- What comes of an execution is the same when everybody in it is tracked. -/
theorem execute_tracking (order : Order) (m : Metrics) :
    let x := ((staffed u.host staff settings).execute order m world).1
    let noted := ((tracking u staff settings).execute order m (world, [])).1
    noted.outcome = x.outcome ∧ noted.spans = x.spans ∧ noted.metrics = x.metrics := by
  intro x noted
  cases hOrder : order.check settings with
  | error refusal =>
      simp only [x, noted]
      rw [execute_of_refused hOrder, execute_of_refused hOrder]
      exact ⟨rfl, rfl, rfl⟩
  | ok job =>
      have hOutcome := (shadows_tracking u staff settings).outcome job world []
      simp only [x, noted]
      rw [execute_of_check hOrder, execute_of_check hOrder]
      refine ⟨congrArg (Except.mapError Escape.halted) hOutcome, ?_, ?_⟩
      · exact congrArg (fun outcome => [{ job.startSpan with
          events := Report.spanEvents ⟨outcome, []⟩ }]) hOutcome
      · exact congrArg ((staffed u.host staff settings).counted m) hOutcome

/-- An execution that is cancelled was cut short, and in any other one nobody is cancelled. -/
theorem moments_execute (order : Order) (m : Metrics) :
    let moments := ((tracking u staff settings).execute order m (world, [])).2.2
    let outcome := ((staffed u.host staff settings).execute order m world).1.outcome
    (outcome = .error (.halted .cancelled) ∧ ∃ job, order.check settings = .ok job ∧
        ((staffed u.host staff settings).course job world).1.ledger.CutShort moments) ∨
      (outcome ≠ .error (.halted .cancelled) ∧ Calm moments) := by
  intro moments outcome
  cases hOrder : order.check settings with
  | error refusal =>
      simp only [moments, outcome]
      rw [execute_of_refused hOrder, execute_of_refused hOrder]
      exact .inr ⟨nofun, Moment.calm_nil⟩
  | ok job =>
      have hMoments := moments_run u staff settings job world
      simp only [moments, outcome]
      rw [execute_of_check hOrder, execute_of_check hOrder]
      simp only [ne_eq, Escape.mapError_eq_halted_iff]
      rcases hMoments with ⟨hOutcome, hCut⟩ | hOther
      · exact .inl ⟨hOutcome, job, rfl, hCut⟩
      · exact .inr hOther

/-- The ways out of an execution. Tracking changes nothing that comes of it. It is cancelled just when
anybody in it is, be it an executor, a capability, a provider or a tool: then nobody begins anything
any more, the metrics are as they were, and the step that was interrupted has no entry. Whatever it
comes to, it is closed. -/
theorem exits_orderly (u : Supplies σ) (staff : String → Option (Servant σ)) (settings : Settings)
    (order : Order) (m : Metrics) (world : σ) :
    let x := ((staffed u.host staff settings).execute order m world).1
    let noted := (tracking u staff settings).execute order m (world, [])
    let moments := noted.2.2
    (noted.1.outcome = x.outcome ∧ noted.1.spans = x.spans ∧ noted.1.metrics = x.metrics) ∧
    (x.outcome = .error (.halted .cancelled) ↔ ∃ p, .cancelled p ∈ moments) ∧
    (∀ before p after, moments = before ++ .cancelled p :: after →
      (∀ q, .began q ∉ after) ∧ x.metrics = m ∧ ∃ job, order.check settings = .ok job ∧
        ((staffed u.host staff settings).course job world).1.ledger.CutShort moments) ∧
    x.Closed settings order m := by
  intro x noted moments
  have hClosed := closed_execute (staffed u.host staff settings) order m world
  refine ⟨execute_tracking u staff settings world order m, ?_, ?_, hClosed⟩
  all_goals
    rcases moments_execute u staff settings world order m with
      ⟨hOutcome, job, hOrder, hCut⟩ | ⟨hOutcome, hCalm⟩
  · exact ⟨fun _ => hCut.exists_cancelled, fun _ => hOutcome⟩
  · exact ⟨fun h => absurd h hOutcome, fun ⟨p, hMem⟩ => absurd hMem (hCalm p)⟩
  · intro before p after hSplit
    refine ⟨hCut.orderly.silent hSplit, ?_, job, hOrder, hCut⟩
    by_contra hChanged
    obtain ⟨⟨r, hReturned⟩, -⟩ := hClosed.changed.mp hChanged
    cases hOutcome.symm.trans hReturned
  · intro before p after hSplit
    refine absurd ?_ (hCalm p)
    change .cancelled p ∈ moments
    rw [hSplit]
    exact List.mem_append_right _ List.mem_cons_self

/-- Supplies whose first provider is cancelled whenever it is asked. -/
def breaking : Supplies Unit :=
  { given := listRouting.host
    pool := some [⟨"first", 0, fun _ _ w => (.error .cancelled, w)⟩,
      ⟨"second", 0, fun _ _ => pure ⟨.text "", none, none, none⟩⟩]
    toolbox := none }

def tellingOrder : Order := { soleRouterOrder with flow := .ready telling.flow }

/-- The step asks the first provider, and nobody else. -/
theorem perform_breaking (l : Ledger) : ∃ c,
    ((Servant.builtin .llm).tracked breaking tell l ⟨.unlimited, 0.0⟩).perform ((), []) =
      (.error .cancelled, (), [.began (.executor tell), .began (.capability (.model c)),
        .began (.provider "first"), .cancelled (.provider "first"),
        .cancelled (.capability (.model c)), .cancelled (.executor tell)]) := by
  have hPrompt : Expr.Template.resolveValue ((Value.field tell.config "systemPrompt").orElse
      (.text "")) l.context = .ok (.text "", []) := Expr.Template.resolveValue_empty _
  unfold Servant.tracked
  simp only [Builtin.executor]
  unfold Executor.completion
  simp only [hPrompt]
  exact ⟨_, rfl⟩

/-- The order is carried out up to that provider. -/
theorem moments_breaking : ∃ c,
    ((tracking breaking builtins listRouting.settings).execute tellingOrder .empty ((), [])).2.2 =
      [.began (.executor tell), .began (.capability (.model c)), .began (.provider "first")] ++
        .cancelled (.provider "first") ::
          [.cancelled (.capability (.model c)), .cancelled (.executor tell)] := by
  let e := tracking breaking builtins listRouting.settings
  let start := e.opening telling ((), [])
  obtain ⟨c, hPerform⟩ := perform_breaking start.2.ledger
  have hDue : start.1.Due "tell" { start.2 with pending := [] } tell :=
    ⟨(by decide : (0 : Int) < 50), rfl, rfl⟩
  have hCleared : start.1.Cleared "tell" _ _ _ := { hDue with timely := rfl, admitted := nofun }
  have hServed : start.1.executors tell.type =
      some ((Servant.builtin .llm).tracked breaking) := rfl
  have hVisit := Plan.visit_of_cancelled hCleared hServed hPerform
  have hPending : start.2.pending = ["tell"] := rfl
  have hOrder : tellingOrder.check e.settings = .ok telling := rfl
  refine ⟨c, ?_⟩
  rw [execute_of_check hOrder]
  refine (seen_run e telling ((), []) Prod.snd fun _ => rfl).trans ?_
  change (start.1.walk start.2).1.world.2 = _
  rw [Plan.walk_eq, Plan.next?, hPending]
  simp only [hVisit]
  rfl

/-- Of two providers the first is cancelled: the run is, and the second one is not tried. -/
theorem first_provider_breaks_off :
    let noted := (tracking breaking builtins listRouting.settings).execute tellingOrder .empty ((), [])
    let x := ((staffed breaking.host builtins listRouting.settings).execute tellingOrder .empty ()).1
    (∃ before after, noted.2.2 = before ++ .cancelled (.provider "first") :: after ∧
      (∀ q, .began q ∉ after) ∧ .began (.provider "second") ∉ before) ∧
    x.outcome = .error (.halted .cancelled) ∧ x.metrics = .empty := by
  intro noted x
  obtain ⟨c, hMoments⟩ := moments_breaking
  obtain ⟨-, hCancelled, hCut, -⟩ :=
    exits_orderly breaking builtins listRouting.settings tellingOrder .empty ()
  obtain ⟨hSilent, hMetrics, -⟩ := hCut _ _ _ hMoments
  refine ⟨⟨_, _, hMoments, hSilent, by simp⟩, hCancelled.mpr ⟨.provider "first", ?_⟩, hMetrics⟩
  rw [hMoments]
  exact List.mem_append_right _ List.mem_cons_self

end Engine

end StepFlow
