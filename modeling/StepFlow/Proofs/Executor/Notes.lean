import StepFlow.Proofs.Run.Turn
import StepFlow.Proofs.Run.Watch

/-! Acts that note. Notes stand beside the world, in a list that nothing reads, so an act that notes
answers as the act does. What it notes is put together from what its parts note, bind by bind. -/
namespace StepFlow

variable {σ α β ν : Type}

namespace Act

theorem perform_bind (act : Act σ α) (next : α → Act σ β) (w : σ) :
    (act >>= next).perform w = match act.perform w with
      | (.ok a, w) => (next a).perform w
      | (.error why, w) => (.error why, w) := by
  change (match act w with
    | (outcome, w) => ExceptT.bindCont next outcome w) = match act w with
    | (.ok a, w) => (next a) w
    | (.error why, w) => (.error why, w)
  rcases act w with ⟨why | a, w⟩ <;> rfl

theorem mapError_eq_ok_iff {r : Except Fault α} {a : α} :
    r.mapError Halt.fault = .ok a ↔ r = .ok a := by
  cases r with
  | error f => exact iff_of_false nofun nofun
  | ok b =>
      constructor
      · rintro ⟨⟩
        rfl
      · rintro ⟨⟩
        rfl

theorem eq_error_of_mapError {r : Except Fault α} {why : Halt}
    (h : .error why = r.mapError Halt.fault) : ∃ f, r = .error f ∧ why = .fault f := by
  cases r with
  | error f =>
      cases h
      exact ⟨f, rfl, rfl⟩
  | ok b => cases h

end Act

/-- An act does what another one does, and notes things of which something holds by its outcome. -/
def Act.Notes (noted : Act (σ × List ν) α) (act : Act σ α)
    (post : Except Halt α → List ν → Prop) : Prop :=
  ∀ w, ∃ more, noted.perform w = ((act.perform w.1).1, ((act.perform w.1).2, w.2 ++ more)) ∧
    post (act.perform w.1).1 more

namespace Act.Notes

variable {act : Act σ α} {noted : Act (σ × List ν) α}
  {post : Except Halt α → List ν → Prop}

theorem mono {post' : Except Halt α → List ν → Prop} (h : Notes noted act post)
    (hPost : ∀ outcome more, post outcome more → post' outcome more) : Notes noted act post' := by
  intro w
  obtain ⟨more, hPerform, hMore⟩ := h w
  exact ⟨more, hPerform, hPost _ _ hMore⟩

/-- A pure computation notes nothing. -/
theorem ofExcept {r : Except Fault α} (h : post (r.mapError .fault) []) :
    Notes (Act.ofExcept r) (Act.ofExcept (σ := σ) r) post := by
  intro w
  refine ⟨[], ?_, ?_⟩
  · rw [List.append_nil]
    cases r <;> rfl
  · cases r <;> exact h

theorem pure {a : α} (h : post (.ok a) []) : Notes (Pure.pure a) (Pure.pure (f := Act σ) a) post :=
  fun w => ⟨[], by rw [List.append_nil]; rfl, h⟩

/-- What is noted in two acts is what the first one notes and then the second one. -/
theorem bind {next : α → Act σ β} {noted' : α → Act (σ × List ν) β}
    {post' : Except Halt β → List ν → Prop} (h : Notes noted act post)
    (hFailed : ∀ why more, post (.error why) more → post' (.error why) more)
    (hNext : ∀ a more, post (.ok a) more →
      Notes (noted' a) (next a) fun outcome later => post' outcome (more ++ later)) :
    Notes (noted >>= noted') (act >>= next) post' := by
  intro w
  obtain ⟨more, hPerform, hPost⟩ := h w
  rw [perform_bind, perform_bind, hPerform]
  rcases hAct : act.perform w.1 with ⟨why | a, world⟩
  · rw [hAct] at hPost
    exact ⟨more, rfl, hFailed why more hPost⟩
  · rw [hAct] at hPost
    obtain ⟨later, hLater, hPost'⟩ := hNext a more hPost (world, w.2 ++ more)
    refine ⟨more ++ later, ?_, hPost'⟩
    simp only [hLater, List.append_assoc]

/-- An act before which nothing is noted. -/
theorem after {next : α → Act σ β} {noted' : α → Act (σ × List ν) β}
    {post' : Except Halt β → List ν → Prop} (h : Notes noted act fun _ more => more = [])
    (hFailed : ∀ why, post' (.error why) []) (hNext : ∀ a, Notes (noted' a) (next a) post') :
    Notes (noted >>= noted') (act >>= next) post' := by
  apply h.bind
  · rintro why _ rfl
    exact hFailed why
  · rintro a _ rfl
    exact hNext a

/-- What follows on a computation may rely on what it has come to. -/
theorem compute {r : Except Fault α} {next : α → Act σ β}
    {noted' : α → Act (σ × List ν) β} {post' : Except Halt β → List ν → Prop}
    (hFailed : ∀ f, r = .error f → post' (.error (.fault f)) [])
    (hNext : ∀ a, r = .ok a → Notes (noted' a) (next a) post') :
    Notes (Act.ofExcept r >>= noted') (Act.ofExcept r >>= next) post' := by
  cases r with
  | ok a => exact hNext a rfl
  | error f =>
      intro w
      refine ⟨[], ?_, hFailed f rfl⟩
      rw [List.append_nil]
      rfl

/-- An act notes the same when its faults are answers. It still gives none when it is cancelled. -/
theorem attempt (h : Notes noted act post) :
    Notes (Act.attempt noted) (Act.attempt act) fun outcome more =>
      match outcome with
      | .ok answer => post (answer.mapError .fault) more
      | .error why => why = .cancelled ∧ post (.error .cancelled) more := by
  intro w
  obtain ⟨more, hPerform, hPost⟩ := h w
  rw [perform_attempt_eq, perform_attempt_eq, hPerform]
  rcases hAct : act.perform w.1 with ⟨(f | _) | a, world⟩ <;> rw [hAct] at hPost
  · exact ⟨more, rfl, hPost⟩
  · exact ⟨more, rfl, rfl, hPost⟩
  · exact ⟨more, rfl, hPost⟩

/-- An act whose notes do not depend on its outcome notes the same when its faults are answers. -/
theorem attempted {known : List ν → Prop} (h : Notes noted act fun _ more => known more) :
    Notes (Act.attempt noted) (Act.attempt act) fun _ more => known more := by
  intro w
  obtain ⟨more, hPerform, hKnown⟩ := h.attempt w
  refine ⟨more, hPerform, ?_⟩
  cases hOutcome : ((Act.attempt act).perform w.1).1 with
  | ok answer =>
      rw [hOutcome] at hKnown
      exact hKnown
  | error why =>
      rw [hOutcome] at hKnown
      exact hKnown.2

/-- What follows on an act may note nothing. -/
theorem followed {known : List ν → Prop} {next : α → Act σ β} {noted' : α → Act (σ × List ν) β}
    (h : Notes noted act fun _ more => known more)
    (hNext : ∀ a, Notes (noted' a) (next a) fun _ more => more = []) :
    Notes (noted >>= noted') (act >>= next) fun _ more => known more := by
  apply h.bind
  · exact fun _ _ hKnown => hKnown
  · intro a more hKnown w
    obtain ⟨later, hPerform, rfl⟩ := hNext a w
    refine ⟨[], hPerform, ?_⟩
    change known (more ++ [])
    rw [List.append_nil]
    exact hKnown

/-- An act that never fails and is not noted. -/
theorem ofState (read : StateM σ α) :
    Notes (Act.ofState (stateAside read : StateM (σ × List ν) α)) (Act.ofState read) fun _ more =>
      more = [] := by
  intro w
  refine ⟨[], ?_, rfl⟩
  rw [List.append_nil]
  rfl

theorem aside (act : Act σ α) :
    Notes (act.aside : Act (σ × List ν) α) act fun _ more => more = [] := by
  intro w
  refine ⟨[], ?_, rfl⟩
  rw [List.append_nil]
  rfl

end Act.Notes

end StepFlow
