import StepFlow.Proofs.Ledger.History
import StepFlow.Proofs.Run.Gain

/-! What the names of a run stand for while it goes on. A run begins with two names, those of its
trigger and of its metadata, and every step that is written adds its own. Ids of steps are free, so
a step may be named like one of the two, and from then on its output is what the name stands for.
Nothing else ever changes what a name stands for. -/
namespace StepFlow

variable {σ : Type}

namespace Ledger

/-- What a ledger makes of the names of the one that it began as: each of the two stands for what it
stood for, unless a step is named so, and what reads no step that is written comes to what it came
to. -/
structure Faithful (start l : Ledger) : Prop where
  trigger : l.context.get? "trigger" =
    some (if l.has "trigger" then l.output "trigger" else start.trigger.dump .stored)
  metadata : l.context.get? "context" =
    some (if l.has "context" then l.output "context" else .map start.metadata)
  expressions : ∀ text, (∀ name ∈ Expr.heads text, l.has name = false) →
    Expr.evaluate? text l.context = Expr.evaluate? text start.context
  templates : ∀ template, (∀ name ∈ Expr.Template.heads template, l.has name = false) →
    Expr.Template.resolve template l.context = Expr.Template.resolve template start.context

variable {start l : Ledger}

theorem entry?_of_not_has {name : String} (h : l.has name = false) : l.entry? name = none := by
  simpa [has] using h

/-- A name of the run stands for itself until a step has it. -/
theorem get?_context_of_begun {name : String} {v : Value} (hOnce : l.stepIds.Nodup)
    (hBegun : (Ledger.start l.trigger l.metadata).context.get? name = some v) :
    l.context.get? name = some (if l.has name then l.output name else v) := by
  rw [get?_context hOnce, hBegun]
  cases hHas : l.has name with
  | false => simp [entry?_of_not_has hHas]
  | true =>
      obtain ⟨e, hEntry⟩ := Option.isSome_iff_exists.mp hHas
      simp [hEntry, output_eq]

/-- A ledger is faithful to the ledger that it began as, whatever was written once. -/
theorem faithful_of_once {trigger : Trigger} {metadata : Table Value} (hTrigger : l.trigger = trigger)
    (hMetadata : l.metadata = metadata) (hOnce : l.stepIds.Nodup) :
    (Ledger.start trigger metadata).Faithful l := by
  subst hTrigger hMetadata
  have hAgree : ∀ names : List String, (∀ name ∈ names, l.has name = false) →
      Expr.Agree names l.context (Ledger.start l.trigger l.metadata).context := by
    intro names hNames name hName
    unfold Value.field
    rw [get?_context hOnce, entry?_of_not_has (hNames name hName)]
    rfl
  exact
    { trigger := get?_context_of_begun hOnce rfl
      metadata := get?_context_of_begun hOnce rfl
      expressions := fun text hNames => Expr.evaluate?_congr (hAgree _ hNames)
      templates := fun template hNames => Expr.Template.resolve_congr (hAgree _ hNames) }

/-- Writes that all succeed are writes that are tried. -/
theorem attempts_of_written {es : List Entry} (h : es.foldlM write? start = some l) :
    start.attempts es = l := by
  induction es generalizing start with
  | nil => exact Option.some.inj h
  | cons e es ih =>
      rw [List.foldlM_cons] at h
      cases hFirst : start.write? e with
      | none =>
          rw [hFirst] at h
          cases h
      | some next =>
          rw [hFirst] at h
          have hAttempt : (start.attempt e).2 = next := by simp [attempt, hFirst]
          rw [attempts_cons, hAttempt]
          exact ih h

end Ledger

namespace Plan

variable {plan : Plan σ} {start : Ledger}

/-- No visit gives a step a second entry. -/
theorem Gain.nodup_stepIds {id : String} {p : Progress (σ × List Call)}
    {v : Visited (σ × List Call)} (h : plan.Gain id p v) (hOnce : p.ledger.stepIds.Nodup) :
    v.parts.1.ledger.stepIds.Nodup := by
  cases h with
  | quiet world told events hAfter =>
      rw [hAfter]
      exact hOnce
  | @answered s q c outcome world started completed told events hCleared hCall hAfter hTold =>
      have hFresh := hCleared.not_mem_stepIds
      rw [checkTime_eq hCleared.timely] at hFresh
      have hNew : s.id ∉ p.ledger.stepIds := hFresh
      rw [hAfter, Ledger.stepIds_append, ← List.concat_eq_append]
      exact hOnce.concat hNew
  | cancelled world hCleared hAfter =>
      rw [hAfter]
      exact hOnce

/-- What a progress keeps of the ledger that its run began with. -/
def Stems (start : Ledger) (p : Progress (σ × List Call)) : Prop :=
  p.ledger.trigger = start.trigger ∧ p.ledger.metadata = start.metadata ∧ p.ledger.stepIds.Nodup

theorem Stems.visit {p : Progress (σ × List Call)} (h : Stems start p) (id : String) :
    Stems start (plan.watched.visit id p).parts.1 := by
  obtain ⟨hTrigger, hMetadata, hOnce⟩ := h
  have hGain := gain_visit plan id p
  exact ⟨hGain.frame.1.trans hTrigger, hGain.frame.2.trans hMetadata, hGain.nodup_stepIds hOnce⟩

end Plan

namespace Engine

/-- The names of the trigger and of the metadata keep their meaning exactly as long as no step that
is named like them is written. This is so on every ledger after any writes that succeed, and on the
ledger of a run before and after each of its visits. Texts and templates that read no written step
come to what they came to when the run began. -/
theorem names_kept_unless_taken (e : Engine σ) (job : Job) (world : σ) :
    (∀ trigger metadata (es : List Entry) l,
      es.foldlM Ledger.write? (Ledger.start trigger metadata) = some l →
        (Ledger.start trigger metadata).Faithful l) ∧
    ∀ v ∈ e.visits job world,
      (Ledger.start job.trigger (job.metadata e.host.accountId)).Faithful v.before.ledger ∧
      (Ledger.start job.trigger (job.metadata e.host.accountId)).Faithful v.after.ledger := by
  refine ⟨?_, ?_⟩
  · intro trigger metadata es l hWritten
    have hAttempts := Ledger.attempts_of_written hWritten
    obtain ⟨hTrigger, hMetadata⟩ := Ledger.frame_attempts (Ledger.start trigger metadata) es
    rw [hAttempts] at hTrigger hMetadata
    refine Ledger.faithful_of_once hTrigger hMetadata ?_
    rw [← hAttempts]
    exact Ledger.nodup_attempts (by simp) es
  · intro v hVisit
    have hBefore : Plan.Stems (e.opening job world).2.watched.ledger v.before :=
      Plan.before_of_mem_legs ⟨rfl, rfl, List.nodup_nil⟩ (fun _ _ h => h)
        (fun id p h _ => h.visit id) hVisit
    obtain ⟨-, -, -, -, -, hVisited⟩ := Plan.reaches_of_mem_legs hVisit
    have hAfter : Plan.Stems (e.opening job world).2.watched.ledger v.after := by
      rw [Leg.after, hVisited]
      exact hBefore.visit v.item
    exact ⟨Ledger.faithful_of_once hBefore.1 hBefore.2.1 hBefore.2.2,
      Ledger.faithful_of_once hAfter.1 hAfter.2.1 hAfter.2.2⟩

/-- A step named as the metadata is: from its write on, its output stands for the metadata. -/
theorem metadata_taken_by_step :
    let start := Ledger.start ⟨"manual", none, none, none, none, none, none⟩
      [("accountId", .text "acc-1")]
    ∃ l, start.write? ⟨"context", "transform", .map [("accountId", .text "other")], .int 0, .int 1,
        none, none⟩ = some l ∧
      start.context.get? "context" = some (.map [("accountId", .text "acc-1")]) ∧
      l.context.get? "context" = some (.map [("accountId", .text "other")]) :=
  ⟨_, rfl, rfl, rfl⟩

end Engine

end StepFlow
