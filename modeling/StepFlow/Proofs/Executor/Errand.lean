import StepFlow.Executor.Builtin
import StepFlow.Proofs.Executor.Notes
import StepFlow.Proofs.Run.Gain

/-! Errands: the answers of models and searches, each with the step that has asked. They are noted
beside the world, in a list that nothing reads, so a host that notes them answers as the host does. -/
namespace StepFlow

variable {σ α β : Type}

namespace Usage

theorem add_comm (u v : Usage) : u.add v = v.add u := by
  simp [add, Int.add_comm]

theorem sum_cons (u : Usage) (us : List Usage) : sum (u :: us) = u.add (sum us) := by
  rw [← List.singleton_append, sum_append]
  simp [sum]

end Usage

/-- What a model or a search has answered. -/
inductive Answer where
  | reply (c : Completion)
  | findings (found : SearchResult)

/-- An answer, with the step that it was given to and the executor of the step. -/
structure Errand where
  builtin : Builtin
  step : Step
  answer : Answer

/-- Whether the reading of a reply as JSON meets an integer of too many digits. -/
def Json.isOverlong (reply : Value) : Bool :=
  match readReply false reply with
  | .error (.numeralTooLong _) => true
  | _ => false

/-- Whether the reply to a step is to be read as JSON. -/
def Executor.readsJson (config : Table Value) : Bool :=
  wantsJson config || !(Value.field config "outputSchema").isVoid

/-- Whether the id of a branch is a list or a mapping, which no set can hold. -/
def Executor.isUnhashable (branch : Value) : Bool :=
  match branch.fields? with
  | some fields => !(Value.field fields "id").isHashable
  | none => false

/-- Whether a router lists a branch with such an id. -/
def Executor.listsUnhashable (config : Table Value) : Bool :=
  match ((Value.field config "branches").orElse (.list [])).elements with
  | .ok branches => branches.any isUnhashable
  | .error _ => false

namespace Value

/-- Whether a value is a text. -/
def isTextual : Value → Bool
  | .text _ => true
  | _ => false

end Value

namespace Errand

/-- What an answer has cost: a reply its usage, a search its tokens. -/
def spent (x : Errand) : Usage :=
  match x.answer with
  | .reply c => c.usage.getD Usage.none
  | .findings found => { total := found.totalTokens }

/-- Whether the step fails on the answer and so reports no cost: a model's reply to be read as JSON
that holds an integer of too many digits, a router's reply that is no text or finds a branch that no
set can hold, a search with a chunk that is no text. -/
def isLost (x : Errand) : Bool :=
  match x.builtin, x.answer with
  | .llm, .reply c =>
    Executor.readsJson x.step.config && Json.isOverlong c.content
  | .router, .reply c => !c.content.isTextual || Executor.listsUnhashable x.step.config
  | .rag, .findings found => found.chunks.any fun c => !c.content.isTextual
  | _, _ => false

/-- What errands have cost that were not lost. -/
def counted (xs : List Errand) : Usage := Usage.sum ((xs.filter fun x => !x.isLost).map spent)

theorem counted_append (xs ys : List Errand) : counted (xs ++ ys) = (counted xs).add (counted ys) := by
  rw [counted, List.filter_append, List.map_append, Usage.sum_append, counted, counted]

/-- What is counted and what is lost are all that was spent. -/
theorem counted_add_lost (xs : List Errand) :
    (counted xs).add (Usage.sum ((xs.filter isLost).map spent)) = Usage.sum (xs.map spent) := by
  induction xs with
  | nil => rfl
  | cons x rest ih =>
      rw [List.map_cons, Usage.sum_cons, ← ih]
      unfold counted
      cases hLost : x.isLost with
      | true =>
          rw [List.filter_cons_of_pos hLost, List.filter_cons_of_neg (by simp [hLost]), List.map_cons,
            Usage.sum_cons, ← Usage.add_assoc, ← Usage.add_assoc, Usage.add_comm x.spent]
      | false =>
          rw [List.filter_cons_of_pos (by simp [hLost]), List.filter_cons_of_neg (by simp [hLost]),
            List.map_cons, Usage.sum_cons, Usage.add_assoc]

theorem counted_of_lost {x : Errand} (hLost : x.isLost = true) : counted [x] = Usage.none := by
  simp [counted, hLost, Usage.sum]

theorem counted_of_kept {x : Errand} (hKept : x.isLost = false) : counted [x] = x.spent := by
  simp [counted, hKept, Usage.sum]

end Errand

/-- An act that notes its answers, in the form in which they are noted. -/
def Act.noting (act : Act σ α) (errand : α → Errand) : Act (σ × List Errand) α := fun w =>
  match act.perform w.1 with
  | (.ok a, world) => (.ok a, (world, w.2 ++ [errand a]))
  | (.error why, world) => (.error why, (world, w.2))

/-- A host that notes the errands of a step. -/
def Host.noting (host : Host σ) (b : Builtin) (s : Step) : Host (σ × List Errand) :=
  { host.aside with
    callModel := fun c => Act.noting (host.callModel c) fun reply => ⟨b, s, .reply reply⟩
    search := fun c => Act.noting (host.search c) fun found => ⟨b, s, .findings found⟩ }

/-- An act that asks once: its answer is noted, and something is known when it is given. -/
def Act.Asks (noted : Act (σ × List Errand) α) (act : Act σ α) (errand : α → Errand)
    (known : Prop) : Prop :=
  Act.Notes noted act fun outcome more =>
    match outcome with
    | .ok a => known ∧ more = [errand a]
    | .error _ => more = []

namespace Act

variable {errand : α → Errand} {known : Prop}

theorem Asks.noting (act : Act σ α) (hKnown : known) : Asks (act.noting errand) act errand known := by
  intro w
  unfold Act.noting Act.perform
  simp only [ExceptT.run]
  rcases act w.1 with ⟨why | a, world⟩
  · exact ⟨[], by rw [List.append_nil], rfl⟩
  · exact ⟨[errand a], rfl, hKnown, rfl⟩

/-- What is asked may be computed before. -/
theorem Asks.compute {r : Except Fault β} {next : β → Act σ α} {noted : β → Act (σ × List Errand) α}
    (hNext : ∀ a, r = .ok a → Asks (noted a) (next a) errand known) :
    Asks (ofExcept r >>= noted) (ofExcept r >>= next) errand known :=
  Notes.compute (fun _ _ => rfl) hNext

/-- What follows on an attempt to ask goes on from the answer, which is noted, or from a fault. -/
theorem Asks.attempt {act : Act σ α} {noted : Act (σ × List Errand) α}
    {next : Except Fault α → Act σ β} {noted' : Except Fault α → Act (σ × List Errand) β}
    {post : Except Halt β → List Errand → Prop} (h : Asks noted act errand known)
    (hCancelled : post (.error .cancelled) [])
    (hFault : ∀ f, Notes (noted' (.error f)) (next (.error f)) post)
    (hAnswer : ∀ a, known →
      Notes (noted' (.ok a)) (next (.ok a)) fun outcome later => post outcome (errand a :: later)) :
    Notes (Act.attempt noted >>= noted') (Act.attempt act >>= next) post := by
  apply (Notes.attempt h).bind
  · rintro why more ⟨rfl, hAsked⟩
    cases hAsked
    exact hCancelled
  · rintro (f | a) more hAsked
    · cases hAsked
      exact hFault f
    · obtain ⟨hKnown, rfl⟩ := hAsked
      exact hAnswer a hKnown

end Act

end StepFlow
