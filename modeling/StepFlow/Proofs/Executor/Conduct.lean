import StepFlow.Executor.Builtin
import StepFlow.Proofs.Budget
import StepFlow.Proofs.Executor.Notes

/-! How the built-in executors conduct themselves. An executor that asks a model, a search or a tool
first hands in what it is about to ask for, and it asks at most once, for just that, and only when
nothing was found against it. The clock that it looks at and the request that it makes are noted
beside the world, failed requests included. -/
namespace StepFlow

variable {σ α : Type}

/-- What a step asks of the world outside. -/
inductive Request where
  | model (c : ModelCall)
  | search (c : SearchCall)
  | tool (c : ToolCall)

/-- What a step does to the world outside: it looks at the clock, or it asks for something. -/
inductive Deed where
  | looked (now : Float)
  | asked (r : Request)

/-- An act that is noted as a request, whatever it comes to. -/
def Act.asking (act : Act σ α) (r : Request) : Act (σ × List Deed) α := fun w =>
  ((act.perform w.1).1, ((act.perform w.1).2, w.2 ++ [.asked r]))

/-- A host beside which it is noted what is done to it. -/
def Host.logged (host : Host σ) : Host (σ × List Deed) :=
  { host.aside with
    callModel := fun c => (host.callModel c).asking (.model c)
    search := fun c => (host.search c).asking (.search c)
    callTool := fun c => (host.callTool c).asking (.tool c)
    seconds := fun w =>
      ((host.seconds.run w.1).1, ((host.seconds.run w.1).2, w.2 ++ [.looked (host.seconds.run w.1).1])) }

/-- What a check notes: it looks at the clock when there is a limit of time. -/
def Budget.looks (b : Budget) (now : Float) : List Deed :=
  if b.scopes.maxExecutionTimeMs ≤ 0 then [] else [.looked now]

namespace Builtin

/-- What the step of an executor hands in, if it comes to ask for anything. -/
def submission (host : Host σ) (config : Table Value) : Builtin → Option Submission
  | .llm => (host.modelFor config).toOption.map fun model => ⟨model, []⟩
  | .router =>
    if Flow.routesByModel config then (host.modelFor config).toOption.map fun model => ⟨model, []⟩
    else none
  | .rag => (Executor.storeIds config).toOption.map fun _ => ⟨.null, []⟩
  | .tool =>
    if (Executor.toolName config).isVoid then none else some ⟨.null, [Executor.toolName config]⟩
  | .deterministic => none
  | .transform => none

/-- A request of an executor is for what its step has handed in. -/
def Covers (sub : Submission) : Builtin → Request → Prop
  | .llm, .model c => c.model = sub.model
  | .router, .model c => c.model = sub.model
  | .rag, .search _ => True
  | .tool, .tool c => sub.tools = [c.tool]
  | _, _ => False

/-- Nothing is asked, or one thing is, for what was handed in. -/
def Asks (kind : Builtin) (sub : Submission) (more : List Deed) : Prop :=
  more = [] ∨ ∃ r, more = [.asked r] ∧ kind.Covers sub r

/-- What an executor comes to and what it notes, by what its step hands in. -/
inductive Conduct (kind : Builtin) (b : Budget) :
    Option Submission → Except Halt StepResult → List Deed → Prop where
  | idle {outcome : Except Halt StepResult} : Conduct kind b none outcome []
  | faulted {sub : Submission} {now : Float} {f : Fault}
      (hCheck : b.checkBefore now sub.model sub.tools = .error f) :
      Conduct kind b (some sub) (.error (.fault f)) (b.looks now)
  | refused {sub : Submission} {now : Float} {v : Violation}
      (hCheck : b.checkBefore now sub.model sub.tools = .ok (some v)) :
      Conduct kind b (some sub) (.ok (.failure v.message)) (b.looks now)
  | cleared {sub : Submission} {now : Float} {outcome : Except Halt StepResult} {more : List Deed}
      (hCheck : b.checkBefore now sub.model sub.tools = .ok none) (hAsks : kind.Asks sub more) :
      Conduct kind b (some sub) outcome (b.looks now ++ more)

end Builtin

/-- A step that names no model is given the one from the settings. -/
theorem Host.modelFor_void {host : Host σ} {config : Table Value} {model : Value}
    (hModel : host.modelFor config = .ok model) (hVoid : model.isVoid = true) :
    (Value.field config "model").isVoid = true ∧ model = .text "" ∧
      ∃ given, host.settings = .ok given ∧ given.defaultModel = "" := by
  unfold modelFor at hModel
  simp only at hModel
  split at hModel
  · rename_i hNamed
    cases hGiven : host.settings with
    | error f =>
        rw [hGiven] at hModel
        cases hModel
    | ok given =>
        rw [hGiven] at hModel
        cases hModel
        obtain hEmpty : given.defaultModel = "" := String.isEmpty_iff.mp hVoid
        exact ⟨hNamed, congrArg Value.text hEmpty, given, rfl, hEmpty⟩
  · rename_i hNamed
    cases hModel
    exact absurd hVoid hNamed

/-- A model is only asked as the model of the step. -/
theorem Builtin.modelFor_of_covers {host : Host σ} {config : Table Value} {kind : Builtin}
    {sub : Submission} {c : ModelCall} (hHanded : kind.submission host config = some sub)
    (hCovers : kind.Covers sub (.model c)) : host.modelFor config = .ok sub.model ∧ c.model = sub.model := by
  have hSome : ∀ {handed : Except Fault Value},
      (handed.toOption.map fun model => (⟨model, []⟩ : Submission)) = some sub →
        handed = .ok sub.model := by
    intro handed hMap
    cases handed with
    | error f => cases hMap
    | ok model =>
        cases hMap
        rfl
  cases kind with
  | llm => exact ⟨hSome hHanded, hCovers⟩
  | router =>
      simp only [submission] at hHanded
      split at hHanded
      · exact ⟨hSome hHanded, hCovers⟩
      · cases hHanded
  | rag => exact hCovers.elim
  | deterministic => exact hCovers.elim
  | tool => exact hCovers.elim
  | transform => exact hCovers.elim

theorem Act.Notes.asking (act : Act σ α) (r : Request) :
    Act.Notes (act.asking r) act fun _ more => more = [.asked r] :=
  fun _ => ⟨[.asked r], rfl, rfl⟩

namespace Executor

variable {host : Host σ} {kind : Builtin} {s : Step} {l : Ledger} {b : Budget} {sub : Submission}

/-- A check at a time of the clock notes what the look at the clock notes. -/
theorem notes_checkBefore {ν : Type} {model : Value} {tools : List Value} {clock : Act σ Float}
    {noted : Act (σ × List ν) Float} {looks : Float → List ν}
    (hClock : Act.Notes noted clock fun outcome more => ∃ now, outcome = .ok now ∧ more = looks now) :
    Act.Notes (noted >>= fun now => Act.ofExcept (b.checkBefore now model tools))
      (clock >>= fun now => Act.ofExcept (b.checkBefore now model tools))
      fun outcome more => ∃ now, more = looks now ∧
        outcome = (b.checkBefore now model tools).mapError .fault := by
  apply hClock.bind
  · rintro why more ⟨now, hFailed, -⟩
    cases hFailed
  · rintro now _ ⟨_, hNow, rfl⟩
    cases hNow
    exact .ofExcept ⟨now, List.append_nil _, rfl⟩

theorem notes_guard_logged (host : Host σ) (b : Budget) (model : Value) (tools : List Value) :
    Act.Notes (host.logged.guard b model tools) (host.guard b model tools)
      fun outcome more => ∃ now, more = b.looks now ∧
        outcome = (b.checkBefore now model tools).mapError .fault := by
  unfold Host.guard
  simp only
  split
  · -- the clock is not looked at, and a time that nothing depends on stands in for it
    rename_i hLimit
    exact notes_checkBefore (.pure ⟨0.0, rfl, by rw [Budget.looks, if_pos hLimit]⟩)
  · rename_i hLimit
    refine notes_checkBefore fun w => ⟨_, rfl, _, rfl, ?_⟩
    rw [Budget.looks, if_neg hLimit]
    rfl

/-- An executor that hands something in and goes on only where nothing is found against it. -/
theorem conduct_of_guarded {model : Value} {tools : List Value}
    {next : Option Violation → Act σ StepResult}
    {noted : Option Violation → Act (σ × List Deed) StepResult}
    (hRefused : ∀ v, next (some v) = pure (.failure v.message))
    (hNoted : ∀ v, noted (some v) = pure (.failure v.message))
    (hCleared : Act.Notes (noted none) (next none) fun _ more => kind.Asks ⟨model, tools⟩ more) :
    Act.Notes (host.logged.guard b model tools >>= noted) (host.guard b model tools >>= next)
      (kind.Conduct b (some ⟨model, tools⟩)) := by
  apply (notes_guard_logged host b model tools).bind
  · rintro why more ⟨now, rfl, hFailed⟩
    obtain ⟨f, hCheck, rfl⟩ := Act.eq_error_of_mapError hFailed
    exact .faulted hCheck
  · rintro found more ⟨now, rfl, hFound⟩
    have hCheck := Act.mapError_eq_ok_iff.mp hFound.symm
    cases found with
    | none =>
        intro w
        obtain ⟨more, hPerform, hAsks⟩ := hCleared w
        exact ⟨more, hPerform, .cleared hCheck hAsks⟩
    | some v =>
        rw [hRefused, hNoted]
        apply Act.Notes.pure
        rw [List.append_nil]
        exact .refused hCheck

/-- Nothing is handed in where it cannot be told what to hand in. -/
theorem conduct_of_computed {r : Except Fault α} {handed : α → Submission}
    {next : α → Act σ StepResult} {noted : α → Act (σ × List Deed) StepResult}
    (hNext : ∀ a, r = .ok a → Act.Notes (noted a) (next a) (kind.Conduct b (some (handed a)))) :
    Act.Notes (Act.ofExcept r >>= noted) (Act.ofExcept r >>= next)
      (kind.Conduct b (r.toOption.map handed)) := by
  apply Act.Notes.compute
  · rintro f rfl
    exact .idle
  · rintro a rfl
    exact hNext a rfl

/-- An executor that hands nothing in notes nothing. -/
theorem conduct_of_idle {r : Except Fault StepResult} :
    Act.Notes (Act.ofExcept r) (Act.ofExcept (σ := σ) r) (kind.Conduct b none) :=
  .ofExcept .idle

theorem asks_of_asking {act : Act σ α} {r : Request} (hCovers : kind.Covers sub r) :
    Act.Notes (act.asking r) act fun _ more => kind.Asks sub more := by
  intro w
  obtain ⟨more, hPerform, rfl⟩ := Act.Notes.asking act r w
  exact ⟨_, hPerform, .inr ⟨r, rfl, hCovers⟩⟩

theorem conduct_completion :
    Act.Notes (completion host.logged s l b) (completion host s l b)
      (Builtin.Conduct .llm b (Builtin.submission host s.config .llm)) := by
  unfold completion Builtin.submission
  apply conduct_of_computed
  intro model _
  apply conduct_of_guarded (fun _ => rfl) (fun _ => rfl)
  apply Act.Notes.compute fun _ _ => .inl rfl
  intro inputs _
  apply Act.Notes.compute fun _ _ => .inl rfl
  intro message _
  apply Act.Notes.compute fun _ _ => .inl rfl
  intro resolved _
  apply Act.Notes.followed
  · apply Act.Notes.attempted
    apply Act.Notes.compute fun _ _ => .inl rfl
    intro systemPrompt _
    exact asks_of_asking rfl
  · rintro (f | reply)
    · exact .pure rfl
    · exact .compute (fun _ _ => rfl) fun _ _ => .pure rfl

theorem conduct_retrieval :
    Act.Notes (retrieval host.logged s l b) (retrieval host s l b)
      (Builtin.Conduct .rag b (Builtin.submission host s.config .rag)) := by
  unfold retrieval Builtin.submission
  apply conduct_of_computed
  intro stores _
  apply conduct_of_guarded (fun _ => rfl) (fun _ => rfl)
  apply Act.Notes.compute fun _ _ => .inl rfl
  intro inputs _
  apply Act.Notes.compute fun _ _ => .inl rfl
  rintro (_ | query) _
  · exact .pure (.inl rfl)
  · apply Act.Notes.followed
    · apply Act.Notes.attempted
      apply Act.Notes.compute fun _ _ => .inl rfl
      intro text _
      exact asks_of_asking trivial
    · rintro (f | found)
      · exact .pure rfl
      · exact .ofExcept rfl

theorem conduct_toolUse :
    Act.Notes (toolUse host.logged s l b) (toolUse host s l b)
      (Builtin.Conduct .tool b (Builtin.submission host s.config .tool)) := by
  unfold toolUse Builtin.submission
  simp only
  split
  · exact .pure .idle
  apply conduct_of_guarded (fun _ => rfl) (fun _ => rfl)
  apply Act.Notes.compute fun _ _ => .inl rfl
  intro inputs _
  apply Act.Notes.compute fun _ _ => .inl rfl
  intro params _
  apply Act.Notes.followed
  · exact .attempted (asks_of_asking rfl)
  · rintro (f | outcome)
    · exact .compute (fun _ _ => rfl) fun _ _ => .pure rfl
    · simp only
      split
      · split
        · exact .pure rfl
        · exact .pure rfl
      · exact .pure rfl

theorem conduct_routing :
    Act.Notes (routing host.logged s l b) (routing host s l b)
      (Builtin.Conduct .router b (Builtin.submission host s.config .router)) := by
  unfold routing Builtin.submission
  split
  · unfold routeByModel
    apply conduct_of_computed
    intro model _
    apply conduct_of_guarded (fun _ => rfl) (fun _ => rfl)
    apply Act.Notes.compute fun _ _ => .inl rfl
    intro inputs _
    apply Act.Notes.followed
    · apply Act.Notes.attempted
      apply Act.Notes.compute fun _ _ => .inl rfl
      intro systemPrompt _
      apply Act.Notes.compute fun _ _ => .inl rfl
      intro message _
      exact asks_of_asking rfl
    · rintro (f | reply)
      · exact .pure rfl
      · exact .ofExcept rfl
  · exact conduct_of_idle

end Executor

/-- What every built-in executor notes follows from what its step hands in. -/
theorem Builtin.conduct_executor (host : Host σ) (kind : Builtin) (s : Step) (l : Ledger)
    (b : Budget) :
    Act.Notes (kind.executor host.logged s l b) (kind.executor host s l b)
      (kind.Conduct b (kind.submission host s.config)) := by
  cases kind with
  | llm => exact Executor.conduct_completion
  | rag => exact Executor.conduct_retrieval
  | deterministic => exact Executor.conduct_of_idle
  | tool => exact Executor.conduct_toolUse
  | router => exact Executor.conduct_routing
  | transform => exact Executor.conduct_of_idle

namespace Builtin.Conduct

variable {kind : Builtin} {b : Budget} {handed : Option Submission}
  {outcome : Except Halt StepResult} {deeds : List Deed}

theorem asked_not_mem_looks {r : Request} {now : Float} : Deed.asked r ∉ b.looks now := by
  unfold Budget.looks
  split <;> simp

/-- Whatever is asked for was handed in, and permitted at the time that was looked at before. -/
theorem of_asked {r : Request} (h : kind.Conduct b handed outcome deeds)
    (hAsked : .asked r ∈ deeds) :
    ∃ sub now, handed = some sub ∧ kind.Covers sub r ∧ b.Permits now sub ∧
      deeds = b.looks now ++ [.asked r] := by
  cases h with
  | idle => cases hAsked
  | faulted => exact absurd hAsked asked_not_mem_looks
  | refused => exact absurd hAsked asked_not_mem_looks
  | @cleared sub now outcome more hCheck hAsks =>
      have hMore : .asked r ∈ more :=
        (List.mem_append.mp hAsked).resolve_left asked_not_mem_looks
      obtain rfl | ⟨r', rfl, hCovers⟩ := hAsks
      · cases hMore
      · obtain rfl : r = r' := Deed.asked.inj (List.mem_singleton.mp hMore)
        exact ⟨sub, now, rfl, hCovers, Budget.checkBefore_eq_none_iff.mp hCheck, rfl⟩

/-- A step that is refused does nothing but look at the clock, and fails with what was found. -/
theorem of_submission {sub : Submission} (h : kind.Conduct b (some sub) outcome deeds) :
    ∃ now, b.looks now <+: deeds ∧ ∀ v, b.checkBefore now sub.model sub.tools = .ok (some v) →
      deeds = b.looks now ∧ outcome = .ok (.failure v.message) := by
  cases h with
  | @faulted _ now f hCheck =>
      refine ⟨now, List.prefix_rfl, fun v hFound => ?_⟩
      rw [hCheck] at hFound
      cases hFound
  | @refused _ now v hCheck =>
      refine ⟨now, List.prefix_rfl, fun v' hFound => ⟨rfl, ?_⟩⟩
      rw [hCheck] at hFound
      cases hFound
      rfl
  | @cleared _ now _ more hCheck hAsks =>
      refine ⟨now, List.prefix_append _ _, fun v hFound => ?_⟩
      rw [hCheck] at hFound
      cases hFound

end Builtin.Conduct

end StepFlow
