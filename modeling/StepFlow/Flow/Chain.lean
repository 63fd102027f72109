import StepFlow.Flow.Basic

/-!
Chains: the steps that follow one another from a start. A step names its follower, or it is
followed by the step after the first place of its id; several followers end the chain, and none of
them is followed further. A step that is already in the chain is not entered again.
-/
namespace StepFlow.Flow

/-- The id that stands after the first place of an id. -/
def after? (f : Flow) (id : String) : Option String :=
  match f.indexOf? id with
  | some position => f.stepIds[position + 1]?
  | none => none

/-- The ids that are not visited yet, each once. -/
def fresh (visited : List String) : List String → List String
  | [] => []
  | id :: rest => if visited.contains id then fresh visited rest else id :: fresh (id :: visited) rest

/-- The step ids that a chain has not visited. -/
def unvisited (f : Flow) (visited : List String) : List String :=
  f.stepIds.filter fun id => !visited.contains id

theorem mem_stepIds_of_step? {f : Flow} {id : String} {s : Step} (h : f.step? id = some s) :
    id ∈ f.stepIds := by
  unfold step? at h
  have hm := List.mem_of_find?_eq_some h
  have hid := List.find?_some h
  simp only [decide_eq_true_eq] at hid
  exact List.mem_map.2 ⟨s, List.mem_reverse.1 hm, hid⟩

/-- Visiting a step leaves fewer to visit. -/
theorem unvisited_length_lt {f : Flow} {visited : List String} {id : String}
    (hid : id ∈ f.stepIds) (hnew : visited.contains id = false) :
    (f.unvisited (id :: visited)).length < (f.unvisited visited).length := by
  have hsub : f.unvisited (id :: visited) =
      (f.unvisited visited).filter fun other => other ≠ id := by
    simp only [unvisited, List.filter_filter]
    congr 1
    funext other
    by_cases h : other = id <;> simp [h]
  rw [hsub]
  refine List.length_filter_lt_length_iff_exists.2 ⟨id, ?_, by simp⟩
  simp only [unvisited, List.mem_filter, hid, hnew, Bool.not_false, and_self]

/-- The chain from `current`, some ids having been visited before. -/
def chain (f : Flow) (visited : List String) (current : String) : List String :=
  if current.isEmpty then []
  else if _hnew : visited.contains current then []
  else
    match _hs : f.step? current with
    | none => [current]
    | some s =>
      match s.next with
      | .one id => current :: chain f (current :: visited) id
      | .several (id :: ids) => current :: fresh (current :: visited) (id :: ids)
      | _ =>
        match f.after? current with
        | some id => current :: chain f (current :: visited) id
        | none => [current]
termination_by (f.unvisited visited).length
decreasing_by
  all_goals exact unvisited_length_lt (mem_stepIds_of_step? _hs) (by simpa using _hnew)

/-- A chain begins with the id that it is entered at, whatever comes after it. -/
theorem head?_chain {f : Flow} {visited : List String} {current : String}
    (hSome : current.isEmpty = false) (hNew : visited.contains current = false) :
    (f.chain visited current).head? = some current := by
  fun_induction chain f visited current with
  | case1 _ _ hEmpty =>
    rw [hEmpty] at hSome
    cases hSome
  | case2 _ _ _ hVisited =>
    rw [hVisited] at hNew
    cases hNew
  | _ => rfl

/-- The chain that begins with a step. -/
def chainFrom (f : Flow) (start : String) : List String := f.chain [] start

/-- The steps that a run begins with: the chain of the entry point if it names a step, and
otherwise all steps in order. -/
def initialQueue (f : Flow) : List String :=
  match f.entryPoint with
  | some id => if !id.isEmpty && (f.step? id).isSome then f.chainFrom id else f.stepIds
  | none => f.stepIds

end StepFlow.Flow
