import Mathlib.Data.Finset.Card
import Mathlib.Data.Nat.Find
import StepFlow.Flow.Chain
import StepFlow.Proofs.Table

/-! What a chain is. From its start one id follows another along a line, until nothing follows, or an
empty id, or one that stood before. If the line ends at a step with several followers, those of them
that are not on it come behind it, and none of them is followed. No id is in a chain twice, so that
the line of any flow ends after at most one id more than the flow has. -/
namespace StepFlow.Flow

section Unseen

/-- Ids that are not visited yet, each of them once. -/
structure Unseen (visited ids : List String) : Prop where
  nodup : ids.Nodup
  fresh : ∀ id ∈ ids, id ∉ visited

theorem Unseen.nil (visited : List String) : Unseen visited [] := ⟨List.nodup_nil, nofun⟩

theorem Unseen.cons {visited ids : List String} {id : String} (hNew : visited.contains id = false)
    (h : Unseen (id :: visited) ids) : Unseen visited (id :: ids) := by
  refine ⟨List.nodup_cons.mpr ⟨fun hAgain => ?_, h.nodup⟩, ?_⟩
  · exact h.fresh id hAgain List.mem_cons_self
  · intro other hOther
    rcases List.mem_cons.mp hOther with rfl | hLater
    · simpa using hNew
    · exact fun hSeen => h.fresh other hLater (List.mem_cons_of_mem _ hSeen)

theorem unseen_fresh (visited ids : List String) : Unseen visited (fresh visited ids) := by
  induction ids generalizing visited with
  | nil => exact .nil visited
  | cons id rest ih =>
      unfold fresh
      split
      · exact ih visited
      · rename_i hNew
        exact .cons (by simpa using hNew) (ih (id :: visited))

/-- A chain enters no id that it has visited. -/
theorem unseen_chain (f : Flow) (visited : List String) (current : String) :
    Unseen visited (f.chain visited current) := by
  fun_induction chain f visited current with
  | case1 => exact .nil _
  | case2 => exact .nil _
  | case3 visited current hText hNew => exact .cons (by simpa using hNew) (.nil _)
  | case4 visited current hText hNew s hStep id hNext ih => exact .cons (by simpa using hNew) ih
  | case5 visited current hText hNew => exact .cons (by simpa using hNew) (unseen_fresh _ _)
  | case6 visited current hText hNew s hStep id hAfter hOne hSeveral ih =>
      exact .cons (by simpa using hNew) ih
  | case7 visited current hText hNew => exact .cons (by simpa using hNew) (.nil _)

/-- Ids of steps, each once, are no more than the steps have ids. -/
theorem length_le_of_nodup {f : Flow} {ids : List String} (hNodup : ids.Nodup)
    (hSteps : ∀ id ∈ ids, (f.step? id).isSome) : ids.length ≤ f.stepIds.toFinset.card := by
  rw [← List.toFinset_card_of_nodup hNodup]
  apply Finset.card_le_card
  intro id hId
  obtain ⟨s, hStep⟩ := Option.isSome_iff_exists.mp (hSteps id (List.mem_toFinset.mp hId))
  exact List.mem_toFinset.mpr (mem_stepIds_of_step? hStep)

end Unseen

variable {f : Flow} {visited : List String} {start : String}

/-- The last definition of a step is the one that the step map holds. -/
theorem get?_stepMap (f : Flow) (id : String) : f.stepMap.get? id = f.step? id := by
  unfold stepMap step? Table.ofList
  rw [Table.get?_merge_last, ← List.map_reverse, List.find?_map]
  simp [Function.comp_def]

/-- The id that follows an id: the one that its step names, or the one behind the first place of the
id when the step names none. Nothing follows an id without a step or a step with several followers. -/
def follower? (f : Flow) (id : String) : Option String :=
  (f.stepMap.get? id).bind fun s =>
    match s.next with
    | .one next => some next
    | .several (_ :: _) => none
    | .several [] | .unset | .named _ => f.after? id

/-- The ids that follow one another from a start, by their number. -/
def line (f : Flow) (start : String) : Nat → Option String
  | 0 => some start
  | n + 1 => (f.line start n).bind f.follower?

/-- A line ends where nothing follows, at an empty id, and at one that stood before. -/
def Ends (f : Flow) (start : String) (n : Nat) : Prop :=
  f.line start n = none ∨ f.line start n = some "" ∨ ∃ m < n, f.line start m = f.line start n

instance : DecidablePred (f.Ends start) := fun _ => inferInstanceAs (Decidable (_ ∨ _ ∨ _))

/-- The followers of the step of an id, when there are several. -/
def branches (f : Flow) (id : String) : List String :=
  match (f.stepMap.get? id).map Step.next with
  | some (.several ids) => ids
  | _ => []

/-- The ids of a line from its start to its end, where some ids count as seen from the beginning. -/
structure Linear (f : Flow) (visited : List String) (start : String) (ids : List String) : Prop where
  follows : ∀ n < ids.length, ids[n]? = f.line start n
  unseen : Unseen visited ids
  present : "" ∉ ids
  ended : ∀ id, f.line start ids.length = some id → id = "" ∨ id ∈ visited ∨ id ∈ ids

/-- A line goes on from what follows its start. -/
theorem line_of_follower? {next : String} (hNext : f.follower? start = some next) (n : Nat) :
    f.line start (n + 1) = f.line next n := by
  induction n with
  | zero => exact hNext
  | succ n ih =>
      rw [line, ih]
      rfl

namespace Linear

theorem nil (hEnd : start = "" ∨ start ∈ visited) : f.Linear visited start [] where
  follows := nofun
  unseen := .nil visited
  present := nofun
  ended := by
    rintro id ⟨⟩
    exact hEnd.imp_right .inl

theorem last (hText : start ≠ "") (hNew : visited.contains start = false)
    (hNone : f.follower? start = none) : f.Linear visited start [start] where
  follows := by
    intro n hFirst
    obtain rfl : n = 0 := by simpa using hFirst
    rfl
  unseen := .cons hNew (.nil _)
  present := by simpa using hText.symm
  ended := by
    intro id hLater
    change f.follower? start = some id at hLater
    rw [hNone] at hLater
    cases hLater

theorem cons {next : String} {ids : List String} (hText : start ≠ "")
    (hNew : visited.contains start = false) (hNext : f.follower? start = some next)
    (h : f.Linear (start :: visited) next ids) : f.Linear visited start (start :: ids) where
  follows := by
    intro n hWithin
    cases n with
    | zero => rfl
    | succ n =>
        rw [line_of_follower? hNext, List.getElem?_cons_succ]
        exact h.follows n (Nat.lt_of_succ_lt_succ hWithin)
  unseen := .cons hNew h.unseen
  present := by
    intro hMem
    rcases List.mem_cons.mp hMem with hEmpty | hLater
    · exact hText hEmpty.symm
    · exact h.present hLater
  ended := by
    intro id hLater
    rw [List.length_cons, line_of_follower? hNext] at hLater
    have hEnd := h.ended id hLater
    simp only [List.mem_cons] at hEnd ⊢
    tauto

/-- Where nothing counts as seen before, the line ends behind the ids. -/
theorem ends {ids : List String} (h : f.Linear [] start ids) : f.Ends start ids.length := by
  cases hLast : f.line start ids.length with
  | none => exact .inl hLast
  | some id =>
      rcases h.ended id hLast with rfl | hSeen | hOn
      · exact .inr (.inl hLast)
      · cases hSeen
      · obtain ⟨m, hWithin, hPlace⟩ := List.mem_iff_getElem.mp hOn
        refine .inr (.inr ⟨m, hWithin, ?_⟩)
        rw [← h.follows m hWithin, hLast, List.getElem?_eq_getElem hWithin, hPlace]

/-- All ids but the last are followed by another one, and so they have steps. -/
theorem steps_dropLast {ids : List String} (h : f.Linear visited start ids) :
    ∀ id ∈ ids.dropLast, (f.step? id).isSome := by
  intro id hMem
  obtain ⟨n, hWithin, hPlace⟩ := List.mem_iff_getElem.mp hMem
  rw [List.getElem_dropLast] at hPlace
  rw [List.length_dropLast] at hWithin
  have hFollowed : f.line start (n + 1) ≠ none := by
    rw [← h.follows (n + 1) (by omega), List.getElem?_eq_getElem (by omega)]
    exact Option.some_ne_none _
  rw [line, ← h.follows n (by omega), List.getElem?_eq_getElem (by omega), hPlace] at hFollowed
  rw [Option.isSome_iff_ne_none]
  intro hNone
  refine hFollowed ?_
  rw [Option.bind_some, follower?, get?_stepMap, hNone, Option.bind_none]

theorem length_le {ids : List String} (h : f.Linear visited start ids) :
    ids.length ≤ f.stepIds.toFinset.card + 1 := by
  have hNodup : ids.dropLast.Nodup := h.unseen.nodup.sublist ids.dropLast_sublist
  have hBound := length_le_of_nodup hNodup h.steps_dropLast
  rw [List.length_dropLast] at hBound
  omega

end Linear

end StepFlow.Flow
