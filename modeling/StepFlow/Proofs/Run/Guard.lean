import Mathlib.Algebra.Group.Nat.Defs
import StepFlow.Proofs.Budget
import StepFlow.Proofs.Run.Escape
import StepFlow.Proofs.Run.Gain

/-! What guards a call. When an executor is called, the cap of steps is not reached, no limit is
broken, and the condition of the step holds of what the calls before it have put out. A limit of
tokens can only be broken by the last call of a run. The run then fails with a trace of it, unless a
count is too long to be told. -/
namespace StepFlow

variable {σ : Type}

namespace Ledger

theorem context_append (l : Ledger) (e : Entry) :
    Ledger.context { l with entries := l.entries ++ [e] } = l.context.put e.stepId e.output := by
  simp [context, Table.merge, List.foldl_append]

end Ledger

namespace Plan

variable {plan : Plan σ}

/-- The names that conditions read after some calls. -/
def contextAfter (l : Ledger) (calls : List Call) : Expr.Context :=
  Table.merge [("trigger", l.trigger.dump .stored), ("context", .map l.metadata)]
    (calls.map fun c => (c.step.id, c.output))

/-- The tokens on a ledger are within their limit, if there is one. -/
def Solvent (plan : Plan σ) (p : Progress (σ × List Call)) : Prop :=
  0 < plan.budget.scopes.maxTotalTokens →
    p.ledger.usage.total ≤ plan.budget.scopes.maxTotalTokens

/-- What holds of a run wherever it goes on: each call is counted and written with its output, and
the tokens are within their limit. -/
structure Guarded (plan : Plan σ) (start : Ledger) (p : Progress (σ × List Call)) : Prop where
  counted : p.executed = p.world.2.length
  written : p.ledger.context = contextAfter start p.world.2
  solvent : plan.Solvent p

theorem contextAfter_append (start : Ledger) (calls : List Call) (c : Call) :
    contextAfter start (calls ++ [c]) = (contextAfter start calls).put c.step.id c.output := by
  simp [contextAfter, Table.merge, List.foldl_append]

/-- The ledger after a call shows what was spent before it and by it. -/
theorem usage_of_answered {c : Call} {s : Step} {l : Ledger} {outcome : Except Fault StepResult}
    (started completed : Float) (hCall : c = ⟨s, l, outcome.mapError .fault⟩) :
    Ledger.usage { l with
        entries := l.entries ++ [entryOf s started completed (resultOf outcome)] } =
      c.ledger.usage.add c.spent := by
  rw [Ledger.usage_append, ← spent_of_call (l := l), hCall]

/-- A call within the limit leaves the tokens within the limit. -/
theorem solvent_of_affords {c : Call} {q : Progress (σ × List Call)}
    (hUsage : q.ledger.usage = c.ledger.usage.add c.spent) (hAffords : plan.affords c = true) :
    plan.Solvent q := by
  intro hLimit
  rw [hUsage]
  simp only [affords, Bool.or_eq_true, decide_eq_true_eq] at hAffords
  omega

/-- A visit after which the run goes on keeps what guards the next. -/
theorem Guarded.gain {start : Ledger} {id : String} {p : Progress (σ × List Call)}
    {v : Visited (σ × List Call)} (hGuarded : plan.Guarded start p) (h : plan.Gain id p v)
    (hGoesOn : v.parts.2 = .finished none) : plan.Guarded start v.parts.1 := by
  cases h with
  | quiet world told events hAfter =>
      rw [hAfter]
      exact ⟨hGuarded.counted, hGuarded.written, hGuarded.solvent⟩
  | @answered s q c outcome world started completed told events hCleared hCall hAfter hTold =>
      rw [hGoesOn] at hTold
      have hAffords : plan.affords c = true := hTold.affords_of_goesOn
      rw [hAfter]
      refine ⟨?_, ?_, solvent_of_affords (usage_of_answered started completed hCall) hAffords⟩
      · rw [List.length_append, ← hGuarded.counted]
        rfl
      · rw [Ledger.context_append, contextAfter_append, hGuarded.written, hCall, output_of_call]
        rfl
  | cancelled world hCleared hAfter hEnd =>
      rw [hEnd] at hGoesOn
      cases hGoesOn

/-- A cleared step is within its time by the clock of the world where it is visited. -/
theorem Cleared.within_time {id : String} {s : Step} {p q : Progress (σ × List Call)}
    (hCleared : plan.watched.Cleared id p s q) (hLimit : 0 < plan.budget.scopes.maxExecutionTimeMs) :
    ∃ ms, plan.budget.elapsedMs (plan.host.seconds.run p.world.1).1 = .ok ms ∧
      ms ≤ plan.budget.scopes.maxExecutionTimeMs := by
  have hTimely := hCleared.timely
  unfold checkTime at hTimely
  have hSome : ¬ plan.watched.budget.scopes.maxExecutionTimeMs ≤ 0 := Int.not_le.mpr hLimit
  rw [if_neg hSome] at hTimely
  have hNone : plan.budget.checkTime (plan.host.seconds.run p.world.1).1 = .ok none :=
    congrArg Prod.fst hTimely
  exact Budget.checkTime_eq_none_iff.mp hNone hLimit

/-- A cleared step is admitted by the ledger as it stands. -/
theorem Cleared.admitted_before {id : String} {s : Step} {p q : Progress (σ × List Call)}
    (hCleared : plan.watched.Cleared id p s q) : s.Admitted p.ledger.context := by
  have hAdmitted := hCleared.admitted
  rw [checkTime_eq hCleared.timely] at hAdmitted
  exact hAdmitted

/-- A run whose last call has broken the limit of tokens, and what its check has led to. -/
def Overdrawn (plan : Plan σ) (p : Progress (σ × List Call)) (ending : Ending) : Prop :=
  ∃ calls c traces told, p.world.2 = calls ++ [c] ∧
    c.ledger.usage.total ≤ plan.budget.scopes.maxTotalTokens ∧
    p.ledger.usage = c.ledger.usage.add c.spent ∧ p.traces = traces ++ told ∧
    plan.affords c = false ∧ plan.Audited c told ending

/-- Only a call that is answered can break the limit, and then the run ends. -/
theorem Solvent.gain {id : String} {p : Progress (σ × List Call)} {v : Visited (σ × List Call)}
    (hSolvent : plan.Solvent p) (h : plan.Gain id p v) :
    plan.Solvent v.parts.1 ∨ plan.Overdrawn v.parts.1 v.parts.2 := by
  cases h with
  | quiet world told events hAfter =>
      rw [hAfter]
      exact .inl hSolvent
  | @answered s q c outcome world started completed told events hCleared hCall hAfter hTold =>
      rw [hAfter]
      have hUsage := usage_of_answered started completed hCall
      cases hAffords : plan.affords c with
      | true => exact .inl (solvent_of_affords hUsage hAffords)
      | false =>
          have hLimit : 0 < plan.budget.scopes.maxTotalTokens := by
            simp only [affords, Bool.or_eq_false_iff, decide_eq_false_iff_not] at hAffords
            omega
          have hBefore : c.ledger.usage.total ≤ plan.budget.scopes.maxTotalTokens := by
            rw [hCall]
            exact hSolvent hLimit
          refine .inr ⟨p.world.2, c, p.traces ++ [traceOf s started completed (resultOf outcome)],
            told, rfl, hBefore, hUsage, ?_, hAffords, hTold⟩
          exact List.append_cons _ _ _
  | cancelled world hCleared hAfter =>
      rw [hAfter]
      exact .inl hSolvent

theorem Solvent.walk {p : Progress (σ × List Call)} (h : plan.Solvent p) :
    plan.Solvent (plan.watched.walk p).1 ∨
      plan.Overdrawn (plan.watched.walk p).1 (plan.watched.walk p).2 := by
  apply walk_preserves (fun p ending => plan.Solvent p ∨ plan.Overdrawn p ending) (.inl h)
  intro p id rest hPrior _
  rcases hPrior with hSolvent | ⟨calls, c, traces, told, -, -, -, -, hAffords, hTold⟩
  · have hTaken : plan.Solvent { p with pending := rest } := hSolvent
    exact hTaken.gain (gain_visit plan id _)
  · -- an overdrawn run has ended, so no visit follows on it
    rw [hTold.affords_of_goesOn] at hAffords
    cases hAffords

/-- A call that costs nothing is within a limit that was kept before it. -/
theorem Solvent.affords {p : Progress (σ × List Call)} (h : plan.Solvent p) {c : Call}
    (hLedger : c.ledger = p.ledger) (hSpent : c.spent = Usage.none) : plan.affords c = true := by
  simp only [Plan.affords, hLedger, hSpent, Usage.add_none, Bool.or_eq_true, decide_eq_true_eq]
  exact (Int.lt_or_le 0 _).symm.imp_right h

theorem Audited.nil_of_affords {c : Call} {told : List Trace} {ending : Ending}
    (h : plan.Audited c told ending) (hAffords : plan.affords c = true) : told = [] := by
  cases h with
  | within => rfl
  | exceeded hOver =>
      rw [hAffords] at hOver
      cases hOver
  | untold => rfl

/-- A call that has failed costs nothing, so it leaves its own trace and no other. -/
theorem Adds.failed {l : Leg (σ × List Call)} (h : plan.Adds l) (hSolvent : plan.Solvent l.before)
    {s : Step} {message : String}
    (hCall : l.calls = [⟨s, l.before.ledger, .ok (.failure message)⟩]) :
    ∃ started completed, l.traces = [traceOf s started completed (.failure message)] ∧
      l.entries = [entryOf s started completed (.failure message)] := by
  cases h with
  | quiet hCalls =>
      rw [hCalls] at hCall
      cases hCall
  | @answered s' q c outcome started completed told hCleared hNote hCalls hEntries hQueued hTraces
      hTold =>
      rw [hCalls, List.singleton_inj] at hCall
      subst hCall
      have hAffords : plan.affords ⟨s, l.before.ledger, .ok (.failure message)⟩ = true :=
        hSolvent.affords rfl rfl
      obtain ⟨rfl, -, hOutcome⟩ := Call.mk.inj hNote
      cases outcome with
      | error f => cases hOutcome
      | ok r =>
          cases hOutcome
          rw [hTold.nil_of_affords hAffords] at hTraces
          exact ⟨started, completed, hTraces, hEntries⟩
  | cancelled hCleared hCalls =>
      rw [hCalls] at hCall
      cases hCall

/-- What a leg adds to the tokens is what its entries tell. -/
theorem usage_after {l : Leg (σ × List Call)} (h : l.visited = plan.watched.visit l.item l.before) :
    l.after.ledger.usage =
      l.before.ledger.usage.add (Usage.sum (l.entries.filterMap Entry.usage)) := by
  have hEntries : l.before.ledger.entries ++ l.entries = l.after.ledger.entries := by
    apply l.append_gained fun p => p.ledger.entries
    rw [Leg.after, h]
    exact (grows_entries plan).visit l.item l.before
  rw [Ledger.usage, ← hEntries, List.filterMap_append, Usage.sum_append]
  rfl

end Plan

namespace Engine

variable {e : Engine σ} {job : Job} {world : σ}

/-- Nothing is called in a run of a flow without steps. -/
theorem steps_ne_nil_of_called (hCalled : (e.record job world).1.world.2 ≠ []) :
    job.flow.steps ≠ [] := by
  intro hSteps
  apply hCalled
  have hPending : (e.opening job world).2.pending = [] := pending_opening hSteps
  change (e.opening job world).2.watched.pending = [] at hPending
  unfold record
  rw [Plan.walk_of_nil hPending]
  rfl

theorem solvent_opening (e : Engine σ) (job : Job) (world : σ) :
    (e.opening job world).1.Solvent (e.opening job world).2.watched := by
  intro hLimit
  exact Int.le_of_lt hLimit

theorem guarded_before {l : Leg (σ × List Call)} (h : l ∈ e.visits job world) :
    (e.opening job world).1.Guarded (e.opening job world).2.ledger l.before := by
  refine Plan.before_of_mem_legs ⟨rfl, rfl, solvent_opening e job world⟩ ?_ ?_ h
  · intro p rest hGuarded
    exact ⟨hGuarded.counted, hGuarded.written, hGuarded.solvent⟩
  · intro id p hGuarded hGoesOn
    exact hGuarded.gain (Plan.gain_visit _ id p) hGoesOn

/-- The outcome of a run whose last call has broken the limit of tokens. -/
theorem outcome_of_overdrawn {c : Call} {traces told : List Trace}
    (hSteps : job.flow.steps ≠ [])
    (hUsage : (e.record job world).1.ledger.usage = c.ledger.usage.add c.spent)
    (hTraces : (e.record job world).1.traces = traces ++ told)
    (hAffords : (e.opening job world).1.affords c = false)
    (hTold : (e.opening job world).1.Audited c told (e.record job world).2) :
    if (Value.int (e.record job world).1.ledger.usage.total).isWritable &&
        (Value.int job.scopes.maxTotalTokens).isWritable then
      ∃ r now message, (e.run job world).1.outcome = .ok r ∧ r.success = false ∧
        r.error = some message ∧ r.usage = (e.record job world).1.ledger.usage ∧
        r.traces.getLast? = some (Plan.overspent c.step.id c.step.type now message)
    else (e.run job world).1.outcome = .error (.fault .integerTooLong) := by
  rw [outcome_record hSteps]
  generalize hEnd : (e.record job world).2 = ending at hTold ⊢
  cases hTold with
  | within hKept =>
      rw [hAffords] at hKept
      cases hKept
  | @exceeded now message _ hShort =>
      rw [← hUsage] at hShort
      have hBoth : ((Value.int (e.record job world).1.ledger.usage.total).isWritable &&
          (Value.int job.scopes.maxTotalTokens).isWritable) = true := by
        rw [hShort.1]
        exact hShort.2
      have hClosed := Progress.isTold_of_writable (p := (e.record job world).1.unwatched)
        (some message) hShort.1
      rw [if_pos hBoth, outcomeOf_of_told hClosed]
      refine ⟨_, now, message, rfl, rfl, rfl, rfl, ?_⟩
      change (e.record job world).1.traces.getLast? = _
      rw [hTraces, List.getLast?_concat]
  | untold _ hLong =>
      rw [← hUsage] at hLong
      have hOne : ¬ ((Value.int (e.record job world).1.ledger.usage.total).isWritable &&
          (Value.int job.scopes.maxTotalTokens).isWritable) = true := by
        rw [Bool.and_eq_true]
        rintro ⟨hTotal, hLimit⟩
        rcases hLong with hLong | hLong
        · rw [hTotal] at hLong
          cases hLong
        · exact absurd (hLimit.symm.trans hLong) nofun
      rw [if_neg hOne]
      rfl

/-- Where an executor is called, fewer calls have been made than the cap allows, the tokens and the
time are within their limits, and the condition of the step holds of the outputs of the calls before
it. If the tokens are over their limit at the end, the last call has brought them there, and the run
has failed with the trace of this violation as its last one, unless one of the two counts is too
long to be told: then that fault comes out in place of a result. -/
theorem calls_guarded (e : Engine σ) (job : Job) (world : σ) :
    let tokens := job.scopes.maxTotalTokens
    let time := job.scopes.maxExecutionTimeMs
    let plan := (e.opening job world).1
    let start := (e.opening job world).2
    let last := (e.record job world).1
    let outcome := (e.run job world).1.outcome
    (∀ earlier l later, e.visits job world = earlier ++ l :: later → ∀ c ∈ l.calls,
      let calls := earlier.flatMap Leg.calls
      (calls.length : Int) < job.maxSteps ∧
      (0 < tokens → c.ledger.usage.total ≤ tokens) ∧
      (0 < time → ∃ ms,
        plan.budget.elapsedMs (e.host.seconds.run l.before.world.1).1 = .ok ms ∧ ms ≤ time) ∧
      c.ledger.context = Plan.contextAfter start.ledger calls ∧ c.step.Admitted c.ledger.context) ∧
    (0 < tokens → tokens < last.ledger.usage.total → ∃ calls c, last.world.2 = calls ++ [c] ∧
      last.ledger.usage.total - c.spent.total ≤ tokens ∧
      if (Value.int last.ledger.usage.total).isWritable && (Value.int tokens).isWritable then
        ∃ r now message, outcome = .ok r ∧ r.success = false ∧ r.error = some message ∧
          r.usage = last.ledger.usage ∧
          r.traces.getLast? = some (Plan.overspent c.step.id c.step.type now message)
      else outcome = .error (.fault .integerTooLong)) := by
  refine ⟨?_, ?_⟩
  · intro earlier l later hLegs c hCall
    have hLeg : l ∈ e.visits job world := by
      rw [hLegs]
      exact List.mem_append_right _ List.mem_cons_self
    have hGuarded := guarded_before hLeg
    have hNotes : l.before.world.2 = earlier.flatMap Leg.calls :=
      (Plan.grows_notes (e.opening job world).1).before hLegs
    obtain ⟨q, hCleared, hLedger⟩ := (Plan.adds_of_mem_legs hLeg).cleared c hCall
    have hBelow : (l.before.executed : Int) < job.maxSteps := hCleared.below
    refine ⟨?_, ?_, hCleared.within_time, ?_, ?_⟩
    · rw [← hNotes, ← hGuarded.counted]
      exact hBelow
    · rw [hLedger]
      exact hGuarded.solvent
    · rw [hLedger, ← hNotes]
      exact hGuarded.written
    · rw [hLedger]
      exact hCleared.admitted_before
  · intro hLimit hOver
    have hEnd : (e.opening job world).1.Solvent (e.record job world).1 ∨
        (e.opening job world).1.Overdrawn (e.record job world).1 (e.record job world).2 :=
      (solvent_opening e job world).walk
    rcases hEnd with hSolvent | hOverdrawn
    · exact absurd (hSolvent hLimit) (Int.not_le.mpr hOver)
    · obtain ⟨calls, c, traces, told, hCalls, hBefore, hUsage, hTraces, hAffords, hTold⟩ := hOverdrawn
      have hCalled : (e.record job world).1.world.2 ≠ [] := by
        rw [hCalls]
        exact List.concat_ne_nil _ _
      refine ⟨calls, c, hCalls, ?_, outcome_of_overdrawn (steps_ne_nil_of_called hCalled) hUsage
        hTraces hAffords hTold⟩
      have hTotal : (e.record job world).1.ledger.usage.total =
          c.ledger.usage.total + c.spent.total := congrArg Usage.total hUsage
      have hWithin : c.ledger.usage.total ≤ job.scopes.maxTotalTokens := hBefore
      omega

/-- The result of a step that reports a number of tokens. -/
def spent (total : Nat) : StepResult := ⟨.null, some ⟨0, 0, total⟩, none, .null, .null⟩

/-- An engine whose steps all report one number of tokens. -/
def spending (total : Nat) : Engine Unit :=
  { listRouting with executors := fun _ => some fun _ _ _ => pure (spent total) }

def spender : Step := ⟨"count", "count", [], none, none, .unset, []⟩

/-- A run of one step within a limit of one token. -/
def thrifty : Job :=
  { soleRouter with
    flow := ⟨[spender], none⟩
    scopes := { Scopes.unlimited with maxTotalTokens := 1 } }

/-- A count that is too long breaks the run off once it is on the ledger. -/
theorem record_thrifty {total : Nat} (hMany : 1 < total)
    (hLong : (Value.int total).isWritable = false) :
    ∃ p, (spending total).record thrifty () = (p, .brokenOff (.fault .integerTooLong)) ∧
      p.ledger.usage.total = total := by
  have hVisit : ∃ w,
      ((spending total).opening thrifty ()).1.watched.next?
          ((spending total).opening thrifty ()).2.watched =
        some (((spending total).opening thrifty ()).1.watched.afterResult spender (spent total) w) ∧
      w.ledger.usage.total = 0 + total := ⟨_, rfl, rfl⟩
  obtain ⟨w, hVisit, hTotal⟩ := hVisit
  rw [Int.zero_add] at hTotal
  have hCheck : ((spending total).opening thrifty ()).1.watched.budget.checkAfter w.ledger =
      .error .integerTooLong := by
    refine Budget.checkAfter_eq_error_iff.mpr ⟨rfl, Int.one_pos, ?_, .inl ?_⟩
    · rw [hTotal]
      exact Int.ofNat_lt.mpr hMany
    · rw [hTotal]
      exact hLong
  refine ⟨w, ?_, hTotal⟩
  rw [record, Plan.walk_eq, hVisit, Plan.afterResult, hCheck]

/-- A step may report a number of tokens with too many digits. The limit of its run is broken then,
but there is no result with a trace that tells it. -/
theorem long_count_escapes :
    thrifty.scopes.maxTotalTokens <
        ((spending (10 ^ Number.digitLimit)).record thrifty ()).1.ledger.usage.total ∧
      ((spending (10 ^ Number.digitLimit)).run thrifty ()).1.outcome =
        .error (.fault .integerTooLong) := by
  have hMany : 1 < 10 ^ Number.digitLimit := Nat.one_lt_pow (by decide) (by decide)
  have hLong : (Value.int ((10 ^ Number.digitLimit : Nat) : Int)).isWritable = false := by
    rw [← Bool.not_eq_true, Value.isWritable_int_iff, Int.natAbs_natCast,
      Nat.length_toDigits_le_iff (by decide) (by decide)]
    exact Nat.lt_irrefl _
  have hSteps : thrifty.flow.steps ≠ [] := List.cons_ne_nil _ _
  obtain ⟨p, hRecord, hTotal⟩ := record_thrifty hMany hLong
  rw [outcome_record hSteps, hRecord, hTotal]
  exact ⟨Int.ofNat_lt.mpr hMany, rfl⟩

end Engine

end StepFlow
