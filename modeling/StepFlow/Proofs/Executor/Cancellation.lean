import StepFlow.Executor.Builtin
import StepFlow.Proofs.Executor.Conduct
import StepFlow.Proofs.Executor.Toolbox
import StepFlow.Provider

/-! Cancellation inside of steps. Whoever takes part in a step is tracked beside a world that knows
nothing of it: it is noted when a party begins and when it is cancelled. Faults are made into
answers, into results and into the next attempt of a pool, but nothing is made of a cancellation.
Once a party is cancelled, all that happens any more is that those who have called on it are
cancelled in turn. -/
namespace StepFlow

variable {σ α β : Type}

/-- Whoever takes part in a run: an executor that carries out a step, a capability that is asked for
something, a provider of a pool, a tool of a toolbox. -/
inductive Party where
  | executor (s : Step)
  | capability (r : Request)
  | provider (name : String)
  | tool (name : String)

inductive Moment where
  | began (p : Party)
  | cancelled (p : Party)

namespace Moment

/-- Nobody was cancelled. -/
def Calm (moments : List Moment) : Prop := ∀ p, .cancelled p ∉ moments

/-- The moments of an act, by what it came to. Nobody was cancelled in an act that was not. In one
that was, nothing but cancellations came after the first of them. -/
def Orderly : Except Halt α → List Moment → Prop
  | .error .cancelled, moments => ∃ (calm : List Moment) (broken : List Party),
    moments = calm ++ broken.map Moment.cancelled ∧ Calm calm
  | _, moments => Calm moments

/-- A party has begun and was cancelled, and so were, before it, those whom it had called on. -/
def Interrupted (p : Party) (moments : List Moment) : Prop :=
  ∃ (calm : List Moment) (broken : List Party),
    moments = .began p :: (calm ++ broken.map Moment.cancelled ++ [.cancelled p]) ∧ Calm calm

/-- The moments of an act of one party. -/
def Ends (p : Party) : Except Halt α → List Moment → Prop
  | .error .cancelled, moments => Interrupted p moments
  | _, moments => Calm moments

theorem calm_nil : Calm [] := nofun

theorem calm_append {moments more : List Moment} :
    Calm (moments ++ more) ↔ Calm moments ∧ Calm more := by
  simp only [Calm, List.mem_append, not_or, forall_and]

theorem Calm.began {moments : List Moment} (h : Calm moments) (p : Party) :
    Calm (.began p :: moments) := by
  intro q hMem
  rcases List.mem_cons.mp hMem with hHead | hTail
  · cases hHead
  · exact h q hTail

/-- What was calm before does not matter. -/
theorem Orderly.prepend {outcome : Except Halt α} {calm moments : List Moment} (hCalm : Calm calm)
    (h : Orderly outcome moments) : Orderly outcome (calm ++ moments) := by
  rcases outcome with (f | _) | a
  · exact calm_append.mpr ⟨hCalm, h⟩
  · obtain ⟨before, broken, rfl, hBefore⟩ := h
    exact ⟨calm ++ before, broken, (List.append_assoc _ _ _).symm, calm_append.mpr ⟨hCalm, hBefore⟩⟩
  · exact calm_append.mpr ⟨hCalm, h⟩

theorem orderly_nil (outcome : Except Halt α) : Orderly outcome [] := by
  rcases outcome with (f | _) | a
  · exact calm_nil
  · exact ⟨[], [], rfl, calm_nil⟩
  · exact calm_nil

theorem Ends.orderly {p : Party} {outcome : Except Halt α} {moments : List Moment}
    (h : Ends p outcome moments) : Orderly outcome moments := by
  rcases outcome with (f | _) | a
  · exact h
  · obtain ⟨calm, broken, rfl, hCalm⟩ := h
    exact ⟨.began p :: calm, broken ++ [p], by simp, hCalm.began p⟩
  · exact h

/-- Nobody begins anything once somebody is cancelled. -/
theorem Orderly.silent {outcome : Except Halt α} {moments before after : List Moment} {p : Party}
    (h : Orderly outcome moments) (hSplit : moments = before ++ .cancelled p :: after) (q : Party) :
    .began q ∉ after := by
  have hCancelled : .cancelled p ∈ moments := by
    rw [hSplit]
    exact List.mem_append_right _ List.mem_cons_self
  have hBroken : ∃ (calm : List Moment) (broken : List Party),
      moments = calm ++ broken.map Moment.cancelled ∧ Calm calm := by
    rcases outcome with (f | _) | a
    · exact absurd hCancelled (h p)
    · exact h
    · exact absurd hCancelled (h p)
  obtain ⟨calm, broken, hMoments, hCalm⟩ := hBroken
  rw [hMoments] at hSplit
  have hTail : after <:+ broken.map Moment.cancelled := by
    rcases List.append_eq_append_iff.mp hSplit with ⟨rest, -, hRest⟩ | ⟨rest, rfl, hRest⟩
    · rw [hRest]
      exact (List.suffix_cons _ _).trans (List.suffix_append _ _)
    · -- nobody was cancelled in the calm, so it ends before the cancellation
      cases rest with
      | nil =>
          rw [← List.nil_append (broken.map _), ← hRest]
          exact List.suffix_cons _ _
      | cons first rest =>
          obtain ⟨rfl, -⟩ := List.cons.inj hRest
          exact absurd (List.mem_append_right _ List.mem_cons_self) (hCalm p)
  intro hBegan
  obtain ⟨r, -, hSame⟩ := List.mem_map.mp (hTail.subset hBegan)
  cases hSame

end Moment

open Moment (Orderly Ends)

/-- What is noted of a party when its act is over. -/
def Party.ending (p : Party) : Except Halt α → List Moment
  | .error .cancelled => [.cancelled p]
  | _ => []

/-- An act of a party that is tracked. -/
def Act.tracked (p : Party) (act : Act (σ × List Moment) α) : Act (σ × List Moment) α := fun w =>
  let (outcome, world, moments) := act.perform (w.1, w.2 ++ [.began p])
  (outcome, world, moments ++ p.ending outcome)

namespace Act.Notes

variable {act : Act σ α} {noted : Act (σ × List Moment) α}

/-- What is noted of a party stands around what it does. -/
theorem surround (p : Party) {post : Except Halt α → List Moment → Prop} (h : Notes noted act post) :
    Notes (noted.tracked p) act fun outcome moments =>
      ∃ more, moments = .began p :: (more ++ p.ending outcome) ∧ post outcome more := by
  intro w
  obtain ⟨more, hPerform, hMore⟩ := h (w.1, w.2 ++ [.began p])
  refine ⟨.began p :: (more ++ p.ending (act.perform w.1).1), ?_, more, rfl, hMore⟩
  have hTracked : (noted.tracked p).perform w =
      ((noted.perform (w.1, w.2 ++ [.began p])).1, (noted.perform (w.1, w.2 ++ [.began p])).2.1,
        (noted.perform (w.1, w.2 ++ [.began p])).2.2 ++
          p.ending (noted.perform (w.1, w.2 ++ [.began p])).1) := rfl
  rw [hTracked, hPerform]
  simp

/-- The moments of a party stand around those of what it does. -/
theorem tracked (p : Party) (h : Notes noted act Orderly) : Notes (noted.tracked p) act (Ends p) := by
  apply (h.surround p).mono
  rintro outcome _ ⟨more, rfl, hOrderly⟩
  have hCalm : Moment.Calm more → Moment.Calm (.began p :: (more ++ [])) := by
    intro hMore
    rw [List.append_nil]
    exact hMore.began p
  rcases outcome with (f | _) | a
  · exact hCalm hOrderly
  · obtain ⟨calm, broken, rfl, hBefore⟩ := hOrderly
    exact ⟨calm, broken, rfl, hBefore⟩
  · exact hCalm hOrderly

/-- All that is noted of a party that calls on nobody is that it begins and how it ends. -/
theorem tracked_aside (p : Party) (act : Act σ α) :
    Notes (act.aside.tracked p) act fun outcome moments =>
      moments = .began p :: p.ending outcome := by
  apply ((Notes.aside act).surround p).mono
  rintro outcome _ ⟨_, rfl, rfl⟩
  rfl

theorem orderly_ofExcept (r : Except Fault α) :
    Notes (Act.ofExcept r) (Act.ofExcept (σ := σ) r) Orderly := .ofExcept (Moment.orderly_nil _)

theorem orderly_pure (a : α) : Notes (Pure.pure a) (Pure.pure (f := Act σ) a) Orderly :=
  .pure Moment.calm_nil

theorem orderly_ofState (read : StateM σ α) :
    Notes (Act.ofState (stateAside read : StateM (σ × List Moment) α)) (Act.ofState read) Orderly := by
  apply (Notes.ofState read).mono
  rintro outcome _ rfl
  exact Moment.orderly_nil outcome

/-- An act that calls on nobody. -/
theorem orderly_aside (act : Act σ α) : Notes act.aside act Orderly := by
  apply (Notes.aside act).mono
  rintro outcome _ rfl
  exact Moment.orderly_nil outcome

theorem orderly_tracked (p : Party) (h : Notes noted act Orderly) :
    Notes (noted.tracked p) act Orderly := (h.tracked p).mono fun _ _ hEnds => hEnds.orderly

/-- A second act is only begun where the first one is not cancelled. -/
theorem orderly_bind {next : α → Act σ β} {noted' : α → Act (σ × List Moment) β}
    (h : Notes noted act Orderly) (hNext : ∀ a, Notes (noted' a) (next a) Orderly) :
    Notes (noted >>= noted') (act >>= next) Orderly := by
  apply h.bind
  · rintro (f | _) more hMore
    · exact hMore
    · exact hMore
  · intro a more hCalm
    exact (hNext a).mono fun _ _ hLater => hLater.prepend hCalm

theorem orderly_compute {r : Except Fault α} {next : α → Act σ β}
    {noted' : α → Act (σ × List Moment) β} (hNext : ∀ a, Notes (noted' a) (next a) Orderly) :
    Notes (Act.ofExcept r >>= noted') (Act.ofExcept r >>= next) Orderly :=
  (orderly_ofExcept r).orderly_bind hNext

/-- Nothing is made of a cancellation where faults are made into answers. -/
theorem orderly_attempt (h : Notes noted act Orderly) :
    Notes (Act.attempt noted) (Act.attempt act) Orderly := by
  apply h.attempt.mono
  rintro (why | answer) more hMore
  · obtain ⟨rfl, hBroken⟩ := hMore
    exact hBroken
  · cases answer with
    | ok a => exact hMore
    | error f => exact hMore

end Act.Notes

open Act.Notes (orderly_pure orderly_ofExcept orderly_ofState orderly_aside orderly_tracked
  orderly_bind orderly_compute orderly_attempt)

/-- A provider whose attempts are tracked. -/
def Provider.tracked (p : Provider σ) : Provider (σ × List Moment) :=
  { name := p.name
    mark := p.mark
    complete := fun messages config => (p.complete messages config).aside.tracked (.provider p.name) }

namespace Provider

/-- No provider is tried after one that is cancelled. -/
theorem orderly_tryAll (messages : List Message) (config : ProviderConfig) (ps : List (Provider σ))
    (last : Fault) :
    Act.Notes (tryAll messages config last (ps.map tracked)) (tryAll messages config last ps)
      Orderly := by
  induction ps generalizing last with
  | nil => exact orderly_ofExcept (.error last)
  | cons p ps ih =>
      apply orderly_bind
      · exact orderly_attempt (orderly_tracked _ (orderly_aside _))
      · rintro (f | reply)
        · exact ih f
        · exact orderly_pure _

/-- The second of two providers is not tried when the first one is cancelled. -/
example (messages : List Message) (config : ProviderConfig) (last : Fault) (p : Provider σ) (w : σ) :
    let q : Provider σ := ⟨"q", 0, fun _ _ w => (.error .cancelled, w)⟩
    ((tryAll messages config last ([q, p].map tracked)).perform (w, [])).2.2 =
      [.began (.provider "q"), .cancelled (.provider "q")] := rfl

theorem labels_tracked (pool : List (Provider σ)) :
    (pool.map tracked).map label = pool.map label := by
  rw [List.map_map]
  rfl

/-- The tracked providers at some places are those at the places, tracked. -/
theorem at_tracked (pool : List (Provider σ)) (places : List Nat) :
    (places.filterMap fun place => (pool.map tracked)[place]?) =
      (places.filterMap fun place => pool[place]?).map tracked := by
  rw [List.map_filterMap]
  simp only [List.getElem?_map]

theorem orderly_callPool (pool : List (Provider σ)) (c : ModelCall) :
    Act.Notes (callPool (pool.map tracked) c) (callPool pool c) Orderly := by
  unfold callPool
  apply orderly_compute
  intro messages
  apply orderly_compute
  intro order
  simp only [labels_tracked, at_tracked]
  exact orderly_tryAll _ _ _ _

end Provider

/-- A tool whose runs are tracked under a name. -/
def Tool.tracked (name : String) (t : Tool σ) : Tool (σ × List Moment) :=
  { name := t.name
    description := t.description
    inputSchema := t.inputSchema
    run := fun input => (t.run input).aside.tracked (.tool name) }

/-- A toolbox whose tools are tracked under the names that they are registered with. -/
def Toolbox.tracked (b : Toolbox σ) : Toolbox (σ × List Moment) :=
  ⟨b.tools.map fun entry => (entry.1, entry.2.tracked entry.1)⟩

namespace Toolbox

theorem orderly_call (b : Toolbox σ) (c : ToolCall) :
    Act.Notes (b.tracked.call c) (b.call c) Orderly := by
  have hMap : b.tracked = b.map Tool.tracked := rfl
  unfold call
  rw [hMap]
  rcases b.find_map Tool.tracked c.tool with ⟨f, hTracked, hFound⟩ | ⟨hTracked, hFound⟩ |
    ⟨called, t, -, -, hTracked, hFound⟩
  all_goals rw [hTracked, hFound]
  · exact orderly_ofExcept (.error f)
  · change Act.Notes
      (Act.ofExcept c.tool.display >>= fun shown => pure ((b.map Tool.tracked).missing shown))
      (Act.ofExcept c.tool.display >>= fun shown => pure (b.missing shown)) Orderly
    simp only [missing_map]
    exact orderly_compute fun _ => orderly_pure _
  · change Act.Notes
      (Act.ofExcept c.accountId.display >>= fun _ =>
        (t.tracked called).run c.input >>= fun r => pure r.outcome)
      (Act.ofExcept c.accountId.display >>= fun _ => t.run c.input >>= fun r => pure r.outcome)
      Orderly
    refine orderly_compute fun _ => ?_
    exact orderly_bind (orderly_tracked _ (orderly_aside _)) fun _ => orderly_pure _

end Toolbox

end StepFlow
