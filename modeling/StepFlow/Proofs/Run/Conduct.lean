import StepFlow.Proofs.Executor.Conduct
import StepFlow.Proofs.Run.Failure
import StepFlow.Proofs.Run.Shadow
import StepFlow.Proofs.Run.Touch

/-! What the built-in executors of a run do to its host. It is noted beside the world, and a run that
notes it is the run itself. So the scopes of a run bind what its steps ask for. -/
namespace StepFlow

variable {σ : Type}

/-- Who carries out the steps of a type: a built-in executor, or another one that an engine has. -/
inductive Servant (σ : Type) where
  | builtin (kind : Builtin)
  | other (executor : Executor σ)

namespace Servant

def executor (host : Host σ) : Servant σ → Executor σ
  | .builtin kind => kind.executor host
  | .other executor => executor

/-- The same executor. If it is built in, it is noted what it does to the host. -/
def logged (host : Host σ) : Servant σ → Executor (σ × List Deed)
  | .builtin kind => kind.executor host.logged
  | .other executor => fun s l b => (executor s l b).aside

/-- What an executor notes of a step, by what it comes to. -/
def Keeps (host : Host σ) (b : Budget) (s : Step) (outcome : Except Halt StepResult)
    (deeds : List Deed) : Servant σ → Prop
  | .builtin kind => kind.Conduct b (kind.submission host s.config) outcome deeds
  | .other _ => deeds = []

theorem notes_logged (host : Host σ) (servant : Servant σ) (s : Step) (l : Ledger) (b : Budget) :
    Act.Notes (servant.logged host s l b) (servant.executor host s l b)
      fun outcome deeds => servant.Keeps host b s outcome deeds := by
  cases servant with
  | builtin kind => exact kind.conduct_executor host s l b
  | other executor => exact .aside _

end Servant

namespace Leg

/-- What is done to the host on a leg. -/
def deeds (l : Leg ((σ × List Deed) × List Call)) : List Deed := l.gained fun p => p.world.1.2

end Leg

/-- What is noted between two points of a run: nothing, or the one call of an executor with what that
executor has done to the host. -/
inductive Attended (host : Host σ) (staff : String → Option (Servant σ)) (b : Budget)
    (p q : Progress ((σ × List Deed) × List Call)) : Prop where
  | quiet (hCalls : q.world.2 = p.world.2) (hDeeds : q.world.1.2 = p.world.1.2)
  | called {s : Step} {servant : Servant σ} {outcome : Except Halt StepResult} {more : List Deed}
      (hServed : staff s.type = some servant)
      (hCalls : q.world.2 = p.world.2 ++ [⟨s, p.ledger, outcome⟩])
      (hDeeds : q.world.1.2 = p.world.1.2 ++ more) (hKeeps : servant.Keeps host b s outcome more)

namespace Attended

variable {host : Host σ} {staff : String → Option (Servant σ)} {b : Budget}

theorem deeds_grow {p q : Progress ((σ × List Deed) × List Call)} (h : Attended host staff b p q) :
    p.world.1.2 <+: q.world.1.2 := by
  cases h with
  | quiet hCalls hDeeds => exact hDeeds ▸ List.prefix_rfl
  | called hServed hCalls hDeeds =>
      rw [hDeeds]
      exact List.prefix_append _ _

/-- What is asked for on a leg is what its step has handed in, and was permitted. -/
theorem of_asked {l : Leg ((σ × List Deed) × List Call)} (h : Attended host staff b l.before l.after)
    {r : Request} (hAsked : .asked r ∈ l.deeds) :
    ∃ c kind sub now, l.calls = [c] ∧ staff c.step.type = some (.builtin kind) ∧
      kind.submission host c.step.config = some sub ∧ kind.Covers sub r ∧ b.Permits now sub ∧
      l.deeds = b.looks now ++ [.asked r] := by
  cases h with
  | quiet hCalls hDeeds =>
      have hNone : l.deeds = [] := Leg.gained_of_append (by rw [List.append_nil]; exact hDeeds)
      rw [hNone] at hAsked
      cases hAsked
  | @called s servant outcome more hServed hCalls hDeeds hKeeps =>
      have hCall : l.calls = [⟨s, l.before.ledger, outcome⟩] := Leg.gained_of_append hCalls
      have hMore : l.deeds = more := Leg.gained_of_append hDeeds
      rw [hMore] at hAsked ⊢
      cases servant with
      | builtin kind =>
          obtain ⟨sub, now, hHanded, hCovers, hPermits, hDone⟩ := hKeeps.of_asked hAsked
          exact ⟨_, kind, sub, now, hCall, hServed, hHanded, hCovers, hPermits, hDone⟩
      | other executor =>
          rw [hKeeps] at hAsked
          cases hAsked

/-- A step that is refused what it hands in asks for nothing, and its call fails with the reason. -/
theorem of_submission {l : Leg ((σ × List Deed) × List Call)}
    (h : Attended host staff b l.before l.after) {c : Call} (hCall : c ∈ l.calls) {kind : Builtin}
    (hServed : staff c.step.type = some (.builtin kind)) {sub : Submission}
    (hHanded : kind.submission host c.step.config = some sub) :
    ∃ now, b.looks now <+: l.deeds ∧ ∀ v, b.checkBefore now sub.model sub.tools = .ok (some v) →
      l.deeds = b.looks now ∧
        l.calls = [⟨c.step, l.before.ledger, .ok (.failure v.message)⟩] := by
  cases h with
  | quiet hCalls hDeeds =>
      have hNone : l.calls = [] := Leg.gained_of_append (by rw [List.append_nil]; exact hCalls)
      rw [hNone] at hCall
      cases hCall
  | @called s servant outcome more hServant hCalls hDeeds hKeeps =>
      have hOne : l.calls = [⟨s, l.before.ledger, outcome⟩] := Leg.gained_of_append hCalls
      have hMore : l.deeds = more := Leg.gained_of_append hDeeds
      rw [hOne, List.mem_singleton] at hCall
      subst hCall
      obtain rfl : servant = .builtin kind := Option.some.inj (hServant.symm.trans hServed)
      have hConduct : kind.Conduct b (kind.submission host s.config) outcome more := hKeeps
      rw [hHanded] at hConduct
      obtain ⟨now, hLooks, hRefused⟩ := hConduct.of_submission
      rw [hMore, hOne]
      refine ⟨now, hLooks, fun v hFound => ?_⟩
      obtain ⟨hNothing, rfl⟩ := hRefused v hFound
      exact ⟨hNothing, rfl⟩

end Attended

/-- What one visit keeps to in the scopes of its run: it uses a listed tool or none; it asks for
nothing unless the time was within its limit when its step has looked at the clock; and if something
is found against what the step hands in, it asks for nothing, its one trace tells the first thing
that was found, and no tokens are added. -/
structure Leg.Scoped (host : Host σ) (staff : String → Option (Servant σ)) (b : Budget)
    (l : Leg ((σ × List Deed) × List Call)) : Prop where
  tools : ∀ c, .asked (.tool c) ∈ l.deeds → Listed b.scopes.allowedTools c.tool
  timely : ∀ r, 0 < b.scopes.maxExecutionTimeMs → .asked r ∈ l.deeds →
    ∃ now ms, l.deeds = [.looked now, .asked r] ∧ b.elapsedMs now = .ok ms ∧
      ms ≤ b.scopes.maxExecutionTimeMs
  refused : ∀ c ∈ l.calls, ∀ kind sub, staff c.step.type = some (.builtin kind) →
    kind.submission host c.step.config = some sub →
      ∃ now, b.looks now <+: l.deeds ∧
        ∀ v, b.checkBefore now sub.model sub.tools = .ok (some v) →
          b.Refuses now sub v.message ∧ l.deeds = b.looks now ∧
          (∃ t, l.traces = [t] ∧ t.stepId = c.step.id ∧ t.status = .error ∧
            t.error = some v.message) ∧
          l.after.ledger.usage = l.before.ledger.usage

namespace Engine

/-- An engine over a host, with built-in executors and others. -/
def staffed (host : Host σ) (staff : String → Option (Servant σ)) (settings : Settings) : Engine σ :=
  { host, executors := fun type => (staff type).map (Servant.executor host), settings }

/-- The same engine, which notes what its built-in executors do to the host. -/
def logging (host : Host σ) (staff : String → Option (Servant σ)) (settings : Settings) :
    Engine (σ × List Deed) :=
  { host := host.aside, executors := fun type => (staff type).map (Servant.logged host), settings }

variable {host : Host σ} {staff : String → Option (Servant σ)} {settings : Settings} {job : Job}
  {world : σ}

theorem shadows_logging : (logging host staff settings).Shadows (staffed host staff settings) := by
  refine ⟨rfl, fun type => ?_⟩
  change Option.Rel _ ((staff type).map _) ((staff type).map _)
  cases staff type with
  | none => exact .none
  | some servant => exact .some fun s l b => (servant.notes_logged host s l b).inStep

/-- Every visit calls one executor or none. -/
theorem attended_visit (id : String) (p : Progress ((σ × List Deed) × List Call)) :
    Attended host staff ((staffed host staff settings).opening job world).1.budget p
      (((logging host staff settings).opening job (world, [])).1.watched.visit id p).parts.1 := by
  have hTouches := Plan.touches_visit
    ((logging host staff settings).opening job (world, [])).1.watched
    (fun w => (w.1.2, w.2)) (fun _ => rfl) (fun _ => rfl) id p
  generalize (Plan.visit _ id p).parts.1 = q at hTouches
  cases hTouches with
  | spared hSame =>
      obtain ⟨hDeeds, hCalls⟩ := Prod.mk.inj hSame
      exact .quiet hCalls hDeeds
  | @called s executor outcome w after hStep hServed hBefore hCall hAfter =>
      obtain ⟨plain, hPlain, rfl⟩ := Option.map_eq_some_iff.mp hServed
      obtain ⟨servant, hServant, rfl⟩ := Option.map_eq_some_iff.mp hPlain
      obtain ⟨more, hPerform, hKeeps⟩ := servant.notes_logged host s p.ledger
        ((staffed host staff settings).opening job world).1.budget w.1
      have hWatched := Executor.perform_watched (servant.logged host) s p.ledger
        ((staffed host staff settings).opening job world).1.budget w
      rw [hPerform] at hWatched
      obtain ⟨rfl, rfl⟩ := Prod.mk.inj (hWatched.symm.trans hCall)
      obtain ⟨hDeedsBefore, hCallsBefore⟩ := Prod.mk.inj hBefore
      obtain ⟨hDeedsAfter, hCallsAfter⟩ := Prod.mk.inj hAfter
      refine .called hServant ?_ ?_ hKeeps
      · rw [← hCallsBefore]
        exact hCallsAfter
      · rw [← hDeedsBefore]
        exact hDeedsAfter

theorem grows_deeds :
    ((logging host staff settings).opening job (world, [])).1.watched.Grows fun p => p.world.1.2 :=
  ⟨fun _ _ => rfl, fun id p => (attended_visit id p).deeds_grow⟩

/-- What is noted of a run is what is done on its visits. -/
theorem deeds_run :
    ((logging host staff settings).run job (world, [])).2.2 =
      ((logging host staff settings).visits job (world, [])).flatMap Leg.deeds := by
  have hWalk := Plan.walk_unwatched ((logging host staff settings).opening job (world, [])).1
    ((logging host staff settings).opening job (world, [])).2.watched
  have hEnd := seen_run (logging host staff settings) job (world, []) Prod.snd fun _ => rfl
  exact (hEnd.trans (congrArg (fun w => w.1.world.2) hWalk)).trans (grows_deeds.walk _)

theorem attended_of_mem_visits {l : Leg ((σ × List Deed) × List Call)}
    (h : l ∈ (logging host staff settings).visits job (world, [])) :
    Attended host staff ((staffed host staff settings).opening job world).1.budget l.before
      l.after := by
  obtain ⟨_, _, -, -, -, hVisited⟩ := Plan.reaches_of_mem_legs h
  rw [Leg.after, hVisited]
  exact attended_visit l.item l.before

theorem scoped_of_mem_visits {l : Leg ((σ × List Deed) × List Call)}
    (h : l ∈ (logging host staff settings).visits job (world, [])) :
    l.Scoped host staff ((staffed host staff settings).opening job world).1.budget := by
  have hAttended := attended_of_mem_visits h
  refine ⟨?_, ?_, ?_⟩
  · intro c hAsked
    obtain ⟨_, kind, sub, now, -, -, -, hCovers, hPermits, -⟩ := hAttended.of_asked hAsked
    have hTool : sub.tools = [c.tool] := by
      cases kind with
      | tool => exact hCovers
      | _ => exact hCovers.elim
    exact hPermits.tools c.tool (hTool ▸ List.mem_singleton_self c.tool)
  · intro r hLimit hAsked
    obtain ⟨_, kind, sub, now, -, -, -, -, hPermits, hDeeds⟩ := hAttended.of_asked hAsked
    obtain ⟨ms, hElapsed, hWithin⟩ := hPermits.timely hLimit
    rw [Budget.looks, if_neg (Int.not_le.mpr hLimit)] at hDeeds
    exact ⟨now, ms, hDeeds, hElapsed, hWithin⟩
  · intro c hCall kind sub hServed hHanded
    obtain ⟨now, hLooks, hRefused⟩ := hAttended.of_submission hCall hServed hHanded
    refine ⟨now, hLooks, fun v hFound => ?_⟩
    obtain ⟨hDeeds, hFailed⟩ := hRefused v hFound
    have hRefuses := Budget.exists_violation_iff.mp ⟨v, hFound, rfl⟩
    obtain ⟨_, _, -, -, -, hVisited⟩ := Plan.reaches_of_mem_legs h
    obtain ⟨started, completed, hTraces, hEntries⟩ :=
      (Plan.adds_of_mem_legs h).failed (guarded_before h).solvent hFailed
    refine ⟨hRefuses, hDeeds, ⟨_, hTraces, rfl, ?_, rfl⟩, ?_⟩
    · have hTold : v.message.isEmpty = false := by
        simpa [String.isEmpty_iff] using hRefuses.message_ne_empty
      simp [Plan.traceOf, StepResult.failed, StepResult.failure, hTold]
    · rw [Plan.usage_after hVisited, hEntries]
      exact Usage.add_none _

/-- The scopes of a run bind what its built-in executors ask for. Noting what is done to the host
changes nothing that the run comes to; what is noted is done on its visits, whose traces are those of
its result; and every visit keeps to the scopes. -/
theorem scopes_bind_requests (host : Host σ) (staff : String → Option (Servant σ))
    (settings : Settings) (job : Job) (world : σ) :
    let noted := (logging host staff settings).run job (world, [])
    let visits := (logging host staff settings).visits job (world, [])
    let budget : Budget := ⟨job.scopes, (host.seconds.run (host.seconds.run world).2).1⟩
    noted.1.outcome = ((staffed host staff settings).run job world).1.outcome ∧
    noted.2.2 = visits.flatMap Leg.deeds ∧
    (∀ r, noted.1.outcome = .ok r → r.traces = visits.flatMap Leg.traces) ∧
    ∀ l ∈ visits, l.Scoped host staff budget := by
  refine ⟨shadows_logging.outcome job world [], deeds_run, ?_, fun l => scoped_of_mem_visits⟩
  intro r hOutcome
  obtain ⟨_, -, -, hTraces⟩ := finished_of_outcome hOutcome
  exact hTraces.trans (traces_record _ job (world, []))

/-- The models that built-in executors ask are listed, or no model is named: neither by the step nor
by the settings. -/
theorem models_listed_unless_unnamed (host : Host σ) (staff : String → Option (Servant σ))
    (settings : Settings) (job : Job) (world : σ) :
    let noted := (logging host staff settings).run job (world, [])
    noted.1.outcome = ((staffed host staff settings).run job world).1.outcome ∧
    ∀ c, .asked (.model c) ∈ noted.2.2 →
      Listed job.scopes.allowedModels c.model ∨
        c.model = .text "" ∧ (∃ given, host.settings = .ok given ∧ given.defaultModel = "") ∧
          ∃ l ∈ (logging host staff settings).visits job (world, []), .asked (.model c) ∈ l.deeds ∧
            ∃ call ∈ l.calls, (Value.field call.step.config "model").isVoid = true := by
  refine ⟨shadows_logging.outcome job world [], fun c hAsked => ?_⟩
  rw [deeds_run, List.mem_flatMap] at hAsked
  obtain ⟨l, hLeg, hAsked⟩ := hAsked
  obtain ⟨call, kind, sub, now, hCalls, -, hHanded, hCovers, hPermits, -⟩ :=
    (attended_of_mem_visits hLeg).of_asked hAsked
  obtain ⟨hModel, hSame⟩ := Builtin.modelFor_of_covers hHanded hCovers
  rw [hSame]
  cases hVoid : sub.model.isVoid with
  | false => exact .inl (hPermits.model hVoid)
  | true =>
      obtain ⟨hUnnamed, hEmpty, hSettings⟩ := Host.modelFor_void hModel hVoid
      refine .inr ⟨hEmpty, hSettings, l, hLeg, hAsked, call, ?_, hUnnamed⟩
      rw [hCalls]
      exact List.mem_singleton_self call

/-- Settings that name no model. -/
def unnamedSettings : Settings := ⟨50, true, "", .standard, "INFO", false, true⟩

/-- A host with these settings, whose model always gives one reply. -/
def answering : Host Unit :=
  { listRouting.host with
    callModel := fun _ => pure ⟨.text "", none⟩
    settings := .ok unnamedSettings }

/-- A step that asks a model and names none. -/
def ask : Step := ⟨"a", "llm", [], none, none, .unset, []⟩

/-- A run of that step alone, with one model allowed. -/
def asking : Job :=
  { soleRouter with
    flow := ⟨[ask], none⟩
    scopes := { Scopes.unlimited with allowedModels := ["m1"] } }

def builtins (type : String) : Option (Servant σ) := (Builtin.ofType? type).map Servant.builtin

/-- The step asks a model without a name, and nothing is found against it. -/
theorem perform_ask (l : Ledger) (w : Unit × List Deed) : ∃ c r,
    (Executor.completion answering.logged ask l ⟨asking.scopes, 0.0⟩).perform w =
        (.ok r, (w.1, w.2 ++ [.asked (.model c)])) ∧
      c.model = .text "" := by
  have hPrompt : Expr.Template.resolveValue ((Value.field ask.config "systemPrompt").orElse
      (.text "")) l.context = .ok (.text "", []) := Expr.Template.resolveValue_empty _
  unfold Executor.completion
  simp only [hPrompt]
  exact ⟨_, _, rfl, rfl⟩

/-- Settings may name no model. Where a step names none either, a list of allowed models does not
keep it from asking. -/
theorem empty_model_asked :
    Settings.read (.map [("default_llm_model", .text "")]) = .ok unnamedSettings ∧
      answering.settings = .ok unnamedSettings ∧ asking.scopes.allowedModels = ["m1"] ∧
      ∃ c, .asked (.model c) ∈ ((logging answering builtins unnamedSettings).run asking ((), [])).2.2 ∧
        c.model = .text "" := by
  refine ⟨rfl, rfl, rfl, ?_⟩
  let start := (logging answering builtins unnamedSettings).opening asking ((), [])
  obtain ⟨c, r, hPerform, hModel⟩ := perform_ask start.2.ledger ((), [])
  have hDue : start.1.Due "a" { start.2 with pending := [] } ask :=
    ⟨(by decide : (0 : Int) < 50), rfl, rfl⟩
  have hCleared : start.1.Cleared "a" _ _ _ := { hDue with timely := rfl, admitted := nofun }
  have hCall : start.1.call (Executor.completion answering.logged) ask
      { start.2 with pending := [] } = (Except.mapError .fault (.ok r), ((), [.asked (.model c)])) :=
    hPerform
  obtain ⟨error, hWalk⟩ := Plan.walk_of_sole rfl hCleared rfl hCall rfl (by decide)
  refine ⟨c, ?_, hModel⟩
  rw [seen_run _ asking ((), []) Prod.snd fun _ => rfl]
  change _ ∈ (start.1.walk start.2).1.world.2
  rw [hWalk]
  exact List.mem_singleton_self _

end Engine

end StepFlow
