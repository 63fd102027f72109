import StepFlow.Proofs.Executor.Cancellation

/-! Executors whose supplies are tracked. The built-in executors make failed steps of the faults of
what they ask, and nothing of its cancellation. -/
namespace StepFlow

open Moment (Orderly)
open Act.Notes (orderly_pure orderly_ofExcept orderly_ofState orderly_aside orderly_tracked
  orderly_bind orderly_compute orderly_attempt)

variable {σ : Type}

/-- What the steps of a run are supplied with: a host, and whatever takes the place of its
capabilities, a pool of providers for models and a toolbox for tools. -/
structure Supplies (σ : Type) where
  given : Host σ
  pool : Option (List (Provider σ))
  toolbox : Option (Toolbox σ)

namespace Supplies

def callModel (u : Supplies σ) (c : ModelCall) : Act σ Completion :=
  match u.pool with
  | some pool => Provider.callPool pool c
  | none => u.given.callModel c

def callTool (u : Supplies σ) (c : ToolCall) : Act σ ToolOutcome :=
  match u.toolbox with
  | some toolbox => toolbox.call c
  | none => u.given.callTool c

def host (u : Supplies σ) : Host σ :=
  { u.given with callModel := u.callModel, callTool := u.callTool }

/-- The same supplies, the providers and tools among them tracked. -/
def aside (u : Supplies σ) : Supplies (σ × List Moment) :=
  { given := u.given.aside
    pool := u.pool.map (List.map Provider.tracked)
    toolbox := u.toolbox.map Toolbox.tracked }

/-- The host of some supplies, with its capabilities and everything behind them tracked. -/
def tracked (u : Supplies σ) : Host (σ × List Moment) :=
  { u.aside.host with
    callModel := fun c => (u.aside.callModel c).tracked (.capability (.model c))
    search := fun c => (u.aside.given.search c).tracked (.capability (.search c))
    callTool := fun c => (u.aside.callTool c).tracked (.capability (.tool c)) }

theorem orderly_callModel (u : Supplies σ) (c : ModelCall) :
    Act.Notes (u.tracked.callModel c) (u.host.callModel c) Orderly := by
  obtain ⟨given, pool, toolbox⟩ := u
  apply orderly_tracked
  cases pool with
  | some pool => exact Provider.orderly_callPool pool c
  | none => exact orderly_aside _

theorem orderly_search (u : Supplies σ) (c : SearchCall) :
    Act.Notes (u.tracked.search c) (u.host.search c) Orderly := orderly_tracked _ (orderly_aside _)

theorem orderly_callTool (u : Supplies σ) (c : ToolCall) :
    Act.Notes (u.tracked.callTool c) (u.host.callTool c) Orderly := by
  obtain ⟨given, pool, toolbox⟩ := u
  apply orderly_tracked
  cases toolbox with
  | some toolbox => exact toolbox.orderly_call c
  | none => exact orderly_aside _

theorem orderly_guard (u : Supplies σ) (b : Budget) (model : Value) (tools : List Value) :
    Act.Notes (u.tracked.guard b model tools) (u.host.guard b model tools) Orderly := by
  unfold Host.guard
  simp only
  split
  · exact orderly_bind (orderly_pure _) fun _ => orderly_ofExcept _
  · exact orderly_bind (orderly_ofState _) fun _ => orderly_ofExcept _

end Supplies

namespace Executor

variable (u : Supplies σ) (s : Step) (l : Ledger) (b : Budget)

theorem orderly_completion :
    Act.Notes (completion u.tracked s l b) (completion u.host s l b) Orderly := by
  unfold completion
  apply orderly_compute
  intro model
  apply orderly_bind (u.orderly_guard b model [])
  rintro (_ | violation)
  · apply orderly_compute
    intro inputs
    apply orderly_compute
    intro message
    apply orderly_compute
    intro resolved
    apply orderly_bind
    · apply orderly_attempt
      apply orderly_compute
      intro systemPrompt
      exact u.orderly_callModel _
    · rintro (f | reply)
      · exact orderly_pure _
      · exact orderly_compute fun _ => orderly_pure _
  · exact orderly_pure _

theorem orderly_retrieval :
    Act.Notes (retrieval u.tracked s l b) (retrieval u.host s l b) Orderly := by
  unfold retrieval
  apply orderly_compute
  intro stores
  apply orderly_bind (u.orderly_guard b .null [])
  rintro (_ | violation)
  · apply orderly_compute
    intro inputs
    apply orderly_compute
    rintro (_ | query)
    · exact orderly_pure _
    · apply orderly_bind
      · apply orderly_attempt
        apply orderly_compute
        intro text
        exact u.orderly_search _
      · rintro (f | found)
        · exact orderly_pure _
        · exact orderly_ofExcept _
  · exact orderly_pure _

theorem orderly_toolUse :
    Act.Notes (toolUse u.tracked s l b) (toolUse u.host s l b) Orderly := by
  unfold toolUse
  simp only
  split
  · exact orderly_pure _
  apply orderly_bind (u.orderly_guard b .null _)
  rintro (_ | violation)
  · apply orderly_compute
    intro inputs
    apply orderly_compute
    intro params
    apply orderly_bind
    · exact orderly_attempt (u.orderly_callTool _)
    · rintro (f | outcome)
      · exact orderly_compute fun _ => orderly_pure _
      · simp only
        split
        · split
          · exact orderly_pure _
          · exact orderly_pure _
        · exact orderly_pure _
  · exact orderly_pure _

theorem orderly_routing :
    Act.Notes (routing u.tracked s l b) (routing u.host s l b) Orderly := by
  unfold routing
  split
  · unfold routeByModel
    apply orderly_compute
    intro model
    apply orderly_bind (u.orderly_guard b model [])
    rintro (_ | violation)
    · apply orderly_compute
      intro inputs
      apply orderly_bind
      · apply orderly_attempt
        apply orderly_compute
        intro systemPrompt
        apply orderly_compute
        intro message
        exact u.orderly_callModel _
      · rintro (f | reply)
        · exact orderly_pure _
        · exact orderly_ofExcept _
    · exact orderly_pure _
  · exact orderly_ofExcept _

end Executor

/-- Nothing is made of a cancellation by a built-in executor. -/
theorem Builtin.orderly_executor (u : Supplies σ) (kind : Builtin) (s : Step) (l : Ledger)
    (b : Budget) : Act.Notes (kind.executor u.tracked s l b) (kind.executor u.host s l b) Orderly := by
  cases kind with
  | llm => exact Executor.orderly_completion u s l b
  | rag => exact Executor.orderly_retrieval u s l b
  | deterministic => exact orderly_ofExcept _
  | tool => exact Executor.orderly_toolUse u s l b
  | router => exact Executor.orderly_routing u s l b
  | transform => exact orderly_ofExcept _

end StepFlow
