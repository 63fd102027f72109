import StepFlow.Proofs.Run.Lockstep

/-! The limits of a run: its cap of steps, and whether errors end it. They decide when a run stops
and nothing else, so a run with tighter limits is the beginning of one with looser limits. A cap that
a successful run has kept to gives the same result, unless an item still waits when so many steps
have been called: the cap is tested before it is known what becomes of the item. -/
namespace StepFlow

variable {σ : Type}

namespace Plan

variable {plan : Plan σ}

/-- Since a progress there has been no call, or the notes have become more. -/
structure Since (q p : Progress (σ × List Call)) : Prop where
  notes : q.world.2 <+: p.world.2
  output : p.world.2.length = q.world.2.length → p.lastOutput = q.lastOutput
  ledger : p.world.2.length = q.world.2.length → p.ledger = q.ledger

/-- A visit without a call leaves the output and the ledger alone. -/
theorem Since.gain {id : String} {q p : Progress (σ × List Call)} {v : Visited (σ × List Call)}
    (hSince : Since q p) (h : plan.Gain id p v) : Since q v.parts.1 := by
  have hLess := hSince.notes.length_le
  cases h with
  | quiet world told events hAfter =>
      rw [hAfter]
      exact ⟨hSince.notes, hSince.output, hSince.ledger⟩
  | @answered s w c outcome world started completed told events hCleared hCall hAfter =>
      have hMore : (p.world.2 ++ [c]).length ≠ q.world.2.length := by
        rw [List.length_append, List.length_singleton]
        omega
      rw [hAfter]
      exact ⟨hSince.notes.trans (List.prefix_append _ _), fun hSame => absurd hSame hMore,
        fun hSame => absurd hSame hMore⟩
  | @cancelled s w world hCleared hAfter =>
      have hMore : (p.world.2 ++ [(⟨s, p.ledger, .error .cancelled⟩ : Call)]).length ≠
          q.world.2.length := by
        rw [List.length_append, List.length_singleton]
        omega
      rw [hAfter]
      exact ⟨hSince.notes.trans (List.prefix_append _ _), fun hSame => absurd hSame hMore,
        fun hSame => absurd hSame hMore⟩

/-- Where no call follows, the output and the ledger are those of the end. -/
theorem Since.walk (plan : Plan σ) (q : Progress (σ × List Call)) :
    Since q (plan.watched.walk q).1 := by
  apply walk_preserves fun p _ => Since q p
  · exact ⟨List.prefix_rfl, fun _ => rfl, fun _ => rfl⟩
  · intro p id rest hPrior _
    have hTaken : Since q { p with pending := rest } :=
      ⟨hPrior.notes, hPrior.output, hPrior.ledger⟩
    exact hTaken.gain (gain_visit plan id _)

end Plan

namespace Engine

variable {e : Engine σ} {job : Job} {world : σ} {cap : Int} {abort : Bool}

/-- The plans of two jobs that only their limits tell apart. -/
theorem follows_opening (e : Engine σ) (world : σ) (hCap : cap ≤ job.maxSteps)
    (hAbort : job.abortOnError = true → abort = true) :
    Plan.Follows Eq
      (e.opening { job with maxSteps := cap, abortOnError := abort } world).1.watched
      (e.opening job world).1.watched := by
  have hSame : ∀ {α : Type} (f : σ × List Call → α × σ × List Call), InStep Eq f f := by
    rintro α f w _ rfl
    exact ⟨rfl, rfl⟩
  refine ⟨rfl, rfl, hSame _, hSame _, fun type => ?_, hCap, hAbort⟩
  change Option.Rel _ ((e.executors type).map Executor.watched)
    ((e.executors type).map Executor.watched)
  cases e.executors type with
  | none => exact .none
  | some executor => exact .some fun s l b => hSame _

theorem alike_opening :
    Progress.Alike Eq
      (e.opening { job with maxSteps := cap, abortOnError := abort } world).2.watched
      (e.opening job world).2.watched := ⟨rfl, rfl, rfl, rfl, rfl, rfl⟩

/-- Runs whose walks end alike have the same outcome. -/
theorem outcome_eq_of_alike (hSteps : job.flow.steps ≠ [])
    (hAlike : (e.record { job with maxSteps := cap, abortOnError := abort } world).1.Alike Eq
      (e.record job world).1)
    (hEnd : (e.record { job with maxSteps := cap, abortOnError := abort } world).2 =
      (e.record job world).2) :
    (e.run { job with maxSteps := cap, abortOnError := abort } world).1.outcome =
      (e.run job world).1.outcome := by
  have hSame : { job with maxSteps := cap, abortOnError := abort : Job }.flow.steps ≠ [] := hSteps
  rw [outcome_record hSteps, outcome_record hSame, hEnd]
  cases (e.record job world).2 with
  | brokenOff why => rfl
  | finished error =>
      simp only [outcomeOf, Progress.isTold, Job.result, Progress.unwatched, hAlike.world,
        hAlike.ledger, hAlike.traces, hAlike.lastOutput]
      rfl

/-- A run returns when its walk is not broken off, unless the tokens in total cannot be told. -/
theorem returns_of_finished {error : Option String} (hEnd : (e.record job world).2 = .finished error) :
    (∃ r, (e.run job world).1.outcome = .ok r) ∨
      (Value.int (e.record job world).1.ledger.usage.total).isWritable = false ∧
        (e.run job world).1.outcome = .error (.fault .integerTooLong) := by
  by_cases hSteps : job.flow.steps = []
  · obtain ⟨ms, hEmpty⟩ := outcome_run_of_no_steps e world hSteps
    exact .inl ⟨_, hEmpty⟩
  · rw [outcome_record hSteps, hEnd]
    cases hTold : (e.record job world).1.unwatched.isTold error with
    | true => exact .inl ⟨_, outcomeOf_of_told hTold _⟩
    | false =>
        exact .inr ⟨(Progress.isTold_eq_false_iff.mp hTold).2, outcomeOf_of_untold hTold _⟩

/-- A run is broken off when its walk is. -/
theorem outcome_of_brokenOff {f : Fault} (hEnd : (e.record job world).2 = .brokenOff (.fault f)) :
    (e.run job world).1.outcome = .error (.fault f) := by
  have hWalk : (e.opening job world).1.walk (e.opening job world).2 =
      ((e.record job world).1.unwatched, (e.record job world).2) :=
    Plan.walk_unwatched (e.opening job world).1 (e.opening job world).2.watched
  rw [hEnd] at hWalk
  exact outcome_eq_error_iff.mpr (.inl ⟨_, hWalk⟩)

/-- The walk of a run begins as that under tighter limits, and when it comes to its end, so does that
one, unless its cap cannot be told. -/
theorem record_extends (e : Engine σ) (world : σ) (hCap : cap ≤ job.maxSteps)
    (hAbort : job.abortOnError = true → abort = true) :
    let tight := { job with maxSteps := cap, abortOnError := abort }
    (e.record tight world).1.traces <+: (e.record job world).1.traces ∧
    (e.record tight world).1.world.2 <+: (e.record job world).1.world.2 ∧
    ∀ error, (e.record job world).2 = .finished error →
      (∃ error, (e.record tight world).2 = .finished error) ∨
        (Value.int cap).isWritable = false ∧
          (e.record tight world).2 = .brokenOff (.fault .integerTooLong) := by
  intro tight
  rcases (follows_opening e world hCap hAbort).walk alike_opening with ⟨hAlike, hEnd⟩ | hParted
  · change (e.record tight world).1.Alike Eq (e.record job world).1 at hAlike
    change (e.record tight world).2 = (e.record job world).2 at hEnd
    rw [hAlike.traces, hAlike.world, hEnd]
    exact ⟨List.prefix_rfl, List.prefix_rfl, fun error hFinished => .inl ⟨error, hFinished⟩⟩
  · obtain ⟨p, q, rest, hWalk, hEnd, hReach, hAlike⟩ := hParted.walk
    change (e.record tight world).1 = _ at hWalk
    rw [hWalk]
    simp only [hAlike.traces, hAlike.world]
    exact ⟨(Plan.grows_traces _).prefix_of_reaches hReach,
      (Plan.grows_notes _).prefix_of_reaches hReach,
      fun _ _ => hEnd.imp_left fun ⟨message, hFailed⟩ => ⟨_, hFailed⟩⟩

/-- A run begins with the traces and the calls of the same run under tighter limits. When it returns,
so does that one, unless its cap or its tokens in total are too long to be told. -/
theorem looser_limits_extend (e : Engine σ) (world : σ) (hCap : cap ≤ job.maxSteps)
    (hAbort : job.abortOnError = abort ∨ abort = true) :
    let tight := { job with maxSteps := cap, abortOnError := abort }
    (e.record tight world).1.traces <+: (e.record job world).1.traces ∧
    (e.record tight world).1.world.2 <+: (e.record job world).1.world.2 ∧
    ∀ r, (e.run job world).1.outcome = .ok r →
      (∃ r', (e.run tight world).1.outcome = .ok r' ∧ r'.traces <+: r.traces) ∨
        ((Value.int cap).isWritable = false ∨
            (Value.int (e.record tight world).1.ledger.usage.total).isWritable = false) ∧
          (e.run tight world).1.outcome = .error (.fault .integerTooLong) := by
  have hAborts : job.abortOnError = true → abort = true := by
    intro hEnds
    rcases hAbort with hSame | hTight
    · exact hSame.symm.trans hEnds
    · exact hTight
  obtain ⟨hTraces, hCalls, hEnds⟩ := record_extends e world hCap hAborts
  refine ⟨hTraces, hCalls, fun r hOutcome => ?_⟩
  obtain ⟨error, hEnd, -, hOwn⟩ := finished_of_outcome hOutcome
  obtain ⟨error', hTight⟩ | ⟨hLong, hTight⟩ := hEnds error hEnd
  · obtain ⟨r', hReturns⟩ | ⟨hLong, hLost⟩ := returns_of_finished hTight
    · obtain ⟨-, -, -, hFirst⟩ := finished_of_outcome hReturns
      refine .inl ⟨r', hReturns, ?_⟩
      rw [hFirst, hOwn]
      exact hTraces
    · exact .inr ⟨.inr hLong, hLost⟩
  · exact .inr ⟨.inl hLong, outcome_of_brokenOff hTight⟩

/-- A run of one step that is listed twice. The second time it has run already. -/
def listedTwice : Job := { soleRouter with flow := ⟨[spender, spender], none⟩ }

theorem listed_twice_extends :
    let tight := { listedTwice with maxSteps := 1 }
    tight.maxSteps ≤ listedTwice.maxSteps ∧
      ((spending 1).record tight ()).1.traces <+: ((spending 1).record listedTwice ()).1.traces ∧
      ((spending 1).record tight ()).1.world.2 <+: ((spending 1).record listedTwice ()).1.world.2 := by
  have hCap : (1 : Int) ≤ listedTwice.maxSteps := by decide
  obtain ⟨hTraces, hCalls, -⟩ := looser_limits_extend (spending 1) () hCap (.inl rfl)
  exact ⟨hCap, hTraces, hCalls⟩

/-- Where an item waits after so many calls, the run with that cap comes by it. -/
theorem capped_of_waitsAfter (hCap : cap ≤ job.maxSteps) (hWaits : e.WaitsAfter job world cap) :
    ∃ p q, (e.opening { job with maxSteps := cap } world).1.watched.Reaches
        (e.opening { job with maxSteps := cap } world).2.watched p ∧
      (e.opening job world).1.watched.Reaches (e.opening job world).2.watched q ∧
      Progress.Alike Eq p q ∧ cap ≤ p.executed ∧ p.pending ≠ [] := by
  obtain ⟨q, hReach, hCalls, hPending⟩ := hWaits
  have hFollows := follows_opening e world hCap id
  rcases hFollows.reaches alike_opening hReach with ⟨p, hTight, hAlike⟩ | hParted
  · refine ⟨p, q, hTight, hReach, hAlike, ?_, ?_⟩
    · rw [hAlike.executed, executed_eq_of_reaches hReach]
      exact hCalls
    · rw [hAlike.pending]
      exact hPending
  · cases hParted with
    | capped hTight hLoose hAlike hCapped hLeft => exact ⟨_, _, hTight, hLoose, hAlike, hCapped, hLeft⟩
    | aborted _ _ _ _ hEnds hGoing => exact absurd (hEnds.symm.trans hGoing) nofun

/-- A run that never has an item waiting after so many calls has the same outcome under that cap. -/
theorem outcome_eq_of_not_waitsAfter (hCap : cap ≤ job.maxSteps)
    (hWaits : ¬ e.WaitsAfter job world cap) :
    (e.run { job with maxSteps := cap } world).1.outcome = (e.run job world).1.outcome := by
  by_cases hSteps : job.flow.steps = []
  · have hNone : job.flow.steps.isEmpty = true := by simp [hSteps]
    simp only [run, hNone, if_true]
  · have hFollows := follows_opening e world hCap id
    rcases hFollows.walk alike_opening with ⟨hAlike, hEnd⟩ | hParted
    · exact outcome_eq_of_alike hSteps hAlike hEnd
    · cases hParted with
      | @capped p q _ hLoose hAlike hCapped hLeft =>
          refine absurd ⟨q, hLoose, ?_, ?_⟩ hWaits
          · rw [← executed_eq_of_reaches hLoose, ← hAlike.executed]
            exact hCapped
          · rw [← hAlike.pending]
            exact hLeft
      | aborted _ _ _ _ hEnds hGoing => exact absurd (hEnds.symm.trans hGoing) nofun

/-- Where an item waits after as many calls as the cap, and no more are made, the run with that cap
stops behind all of the calls, with the ledger and the output that they lead to. -/
theorem stopped_of_waitsAfter (hCap : cap ≤ job.maxSteps)
    (hCalls : ((e.record job world).1.world.2.length : Int) ≤ cap)
    (hWaits : e.WaitsAfter job world cap) :
    ∃ p, e.record { job with maxSteps := cap } world =
        ((e.opening { job with maxSteps := cap } world).1.watched.stopAtCap p).parts ∧
      cap = (e.record job world).1.world.2.length ∧
      p.world.2 = (e.record job world).1.world.2 ∧
      p.ledger = (e.record job world).1.ledger ∧
      p.lastOutput = (e.record job world).1.lastOutput ∧
      p.traces <+: (e.record job world).1.traces := by
  obtain ⟨p, q, hTight, hReach, hAlike, hReached, hPending⟩ := capped_of_waitsAfter hCap hWaits
  have hCalled : cap ≤ (q.world.2.length : Int) := by
    rw [← executed_eq_of_reaches hReach, ← hAlike.executed]
    exact hReached
  -- the run without the cap makes no call after `q`, so its end has the notes and the output of `q`
  have hSince : Plan.Since q (e.record job world).1 := by
    rw [record, hReach.walk_eq]
    exact Plan.Since.walk _ q
  have hNotes : q.world.2 = (e.record job world).1.world.2 := by
    have hLess := hSince.notes.length_le
    exact hSince.notes.eq_of_length (by omega)
  have hSame : q.world.2.length = (e.record job world).1.world.2.length := congrArg List.length hNotes
  refine ⟨{ p with pending := p.pending.tail }, hTight.walk_of_capped hReached hPending, by omega,
    ?_, ?_, ?_, ?_⟩
  · rw [hAlike.world, hNotes]
  · rw [hAlike.ledger, hSince.ledger (by rw [hNotes])]
  · rw [hAlike.lastOutput, hSince.output (by rw [hNotes])]
  · rw [hAlike.traces]
    exact (Plan.grows_traces _).prefix_of_reaches hReach

/-- Nothing waits in a run of no steps. -/
theorem steps_ne_nil_of_waitsAfter (hWaits : e.WaitsAfter job world cap) : job.flow.steps ≠ [] := by
  intro hNone
  obtain ⟨q, hReach, -, hPending⟩ := hWaits
  have hStart : (e.opening job world).2.pending = [] := pending_opening hNone
  rw [hReach.eq_of_pending_nil hStart] at hPending
  exact hPending hStart

/-- A run that succeeds has the same outcome under a cap that its calls keep to, unless an item
still waits when so many have been made. Then they are all of its calls, and under the cap the run
fails behind them, with the same output, as long as the cap and the tokens in total can be told. -/
theorem cap_fails_only_waiting {r : RunResult} (cap : Int)
    (hOutcome : (e.run job world).1.outcome = .ok r) (hSuccess : r.success = true) (hCap : cap ≤ job.maxSteps)
    (hCalls : ((e.record job world).1.world.2.length : Int) ≤ cap) :
    let tight := { job with maxSteps := cap }
    (¬ e.WaitsAfter job world cap → (e.run tight world).1.outcome = .ok r) ∧
    (e.WaitsAfter job world cap → cap = (e.record job world).1.world.2.length ∧
      (e.record tight world).1.world.2 = (e.record job world).1.world.2 ∧
      ((Value.int cap).isWritable = true → (Value.int r.usage.total).isWritable = true →
        ∃ r', (e.run tight world).1.outcome = .ok r' ∧ r'.success = false ∧
          r'.error = some ("Max steps limit reached (" ++ toString cap ++ ")") ∧
          r'.output = r.output ∧ r'.traces <+: r.traces)) := by
  intro tight
  refine ⟨fun hWaits => ?_, fun hWaits => ?_⟩
  · rw [← hOutcome]
    exact outcome_eq_of_not_waitsAfter hCap hWaits
  · have hSteps : job.flow.steps ≠ [] := steps_ne_nil_of_waitsAfter hWaits
    obtain ⟨p, hRecord, hAll, hNotes, hLedger, hOutput, hTraces⟩ :=
      stopped_of_waitsAfter hCap hCalls hWaits
    obtain ⟨hAt, -⟩ := (e.opening tight world).1.watched.stopAtCap_parts p
    obtain ⟨error, ms, -, -, rfl⟩ := record_of_outcome hSteps hOutcome
    refine ⟨hAll, ?_, fun hWritable hTotal => ?_⟩
    · rw [hRecord, hAt, hNotes]
    · change (Value.int (e.record job world).1.ledger.usage.total).isWritable = true at hTotal
      rw [← hLedger] at hTotal
      have hShort : (Value.int (e.opening tight world).1.watched.maxSteps).isWritable = true :=
        hWritable
      have hTold : p.isTold (some (e.opening tight world).1.watched.capError) = true :=
        Progress.isTold_of_writable _ hTotal
      rw [Plan.stopAtCap_of_writable hShort] at hRecord
      have hSame : tight.flow.steps ≠ [] := hSteps
      obtain ⟨ms, hReturns⟩ := returns_of_record hSame hRecord hTold
      exact ⟨_, hReturns, rfl, rfl, hOutput, hTraces⟩

theorem record_listedTwice :
    ∃ p, (spending 1).record listedTwice () = (p, .finished none) ∧ p.world.2.length = 1 := by
  have hVisits : ∃ q p,
      ((spending 1).opening listedTwice ()).1.watched.next?
        ((spending 1).opening listedTwice ()).2.watched = some (.goesOn q) ∧
      ((spending 1).opening listedTwice ()).1.watched.next? q = some (.goesOn p) ∧
      ((spending 1).opening listedTwice ()).1.watched.next? p = none ∧ p.world.2.length = 1 :=
    ⟨_, _, rfl, rfl, rfl, rfl⟩
  obtain ⟨q, p, hFirst, hSecond, hDone, hOne⟩ := hVisits
  refine ⟨p, ?_, hOne⟩
  rw [record, Plan.walk_eq, hFirst]
  simp only
  rw [Plan.walk_eq, hSecond]
  simp only
  rw [Plan.walk_eq, hDone]

/-- A run of one call that succeeds does not succeed under a cap of one step. -/
theorem skipped_step_meets_cap :
    (∃ r, ((spending 1).run listedTwice ()).1.outcome = .ok r ∧ r.success = true) ∧
      ((spending 1).record listedTwice ()).1.world.2.length = 1 ∧
      ∃ r, ((spending 1).run { listedTwice with maxSteps := 1 } ()).1.outcome = .ok r ∧
        r.success = false ∧ r.error = some "Max steps limit reached (1)" := by
  have hSteps : listedTwice.flow.steps ≠ [] := List.cons_ne_nil _ _
  obtain ⟨p, hRecord, hOne⟩ := record_listedTwice
  refine ⟨?_, ?_, ?_⟩
  · rw [outcome_record hSteps, hRecord]
    exact ⟨_, rfl, rfl⟩
  · rw [hRecord]
    exact hOne
  · have hVisits : ∃ q p error,
        ((spending 1).opening { listedTwice with maxSteps := 1 } ()).1.next?
          ((spending 1).opening { listedTwice with maxSteps := 1 } ()).2 = some (.goesOn q) ∧
        ((spending 1).opening { listedTwice with maxSteps := 1 } ()).1.next? q =
          some (.ended p error) ∧
        error = "Max steps limit reached (1)" ∧ p.ledger.usage.total = 1 :=
      ⟨_, _, _, rfl, rfl, rfl, rfl⟩
    obtain ⟨q, p, error, hFirst, hSecond, hCap, hTotal⟩ := hVisits
    have hTold : p.isTold (some error) = true := by
      apply Progress.isTold_of_writable
      rw [hTotal]
      exact Value.isWritable_int_iff.mpr (by decide)
    have hSame : { listedTwice with maxSteps := 1 : Job }.flow.steps ≠ [] := hSteps
    rw [outcome_run hSame, Plan.walk_eq, hFirst]
    simp only
    rw [Plan.walk_eq, hSecond]
    exact ⟨_, outcomeOf_of_told hTold _, rfl, congrArg some hCap⟩

theorem listed_twice_within_two : ∃ r, ((spending 1).run listedTwice ()).1.outcome = .ok r ∧
    ((spending 1).run { listedTwice with maxSteps := 2 } ()).1.outcome = .ok r := by
  have hSteps : listedTwice.flow.steps ≠ [] := List.cons_ne_nil _ _
  obtain ⟨p, hRecord, hOne⟩ := record_listedTwice
  have hOutcome : ∃ r, ((spending 1).run listedTwice ()).1.outcome = .ok r ∧ r.success = true := by
    rw [outcome_record hSteps, hRecord]
    exact ⟨_, rfl, rfl⟩
  obtain ⟨r, hOutcome, hSuccess⟩ := hOutcome
  have hCalls : ((spending 1).record listedTwice ()).1.world.2.length = 1 := by
    rw [hRecord]
    exact hOne
  have hKept : (((spending 1).record listedTwice ()).1.world.2.length : Int) ≤ 2 := by
    rw [hCalls]
    decide
  obtain ⟨hSame, hCapped⟩ := cap_fails_only_waiting 2 hOutcome hSuccess (by decide) hKept
  refine ⟨r, hOutcome, hSame fun hWaits => ?_⟩
  have hTwo := (hCapped hWaits).1
  rw [hCalls] at hTwo
  exact absurd hTwo (by decide)

end Engine

end StepFlow
