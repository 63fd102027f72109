import Mathlib.Data.List.Basic
import Mathlib.Data.List.Flatten
import StepFlow.Proofs.Run.Once

/-! Walks visit by visit. A leg is one visit with the progress that it finds and what it comes to,
and the legs of a walk are its visits in their order. What has grown over a walk has grown leg by
leg, so a fact about one visit becomes a fact about runs by adding up legs. -/
namespace StepFlow

variable {σ β : Type}

/-- One visit of a walk: the item that it takes, the progress once the item is taken, and what the
visit comes to. -/
structure Leg (σ : Type) where
  item : String
  before : Progress σ
  visited : Visited σ

namespace Leg

def after (l : Leg σ) : Progress σ := l.visited.parts.1

/-- What a leg adds to a list that never shrinks. -/
def gained (l : Leg σ) (f : Progress σ → List β) : List β :=
  (f l.after).drop (f l.before).length

def traces (l : Leg σ) : List Trace := l.gained Progress.traces

def entries (l : Leg σ) : List Entry := l.gained fun p => p.ledger.entries

/-- The items that a leg puts behind those that wait already. -/
def queued (l : Leg σ) : List String := l.gained Progress.pending

/-- The calls that a leg notes. -/
def calls (l : Leg (σ × List Call)) : List Call := l.gained fun p => p.world.2

theorem gained_of_append {l : Leg σ} {f : Progress σ → List β} {more : List β}
    (h : f l.after = f l.before ++ more) : l.gained f = more := by
  rw [gained, h, List.drop_left]

theorem append_gained (l : Leg σ) (f : Progress σ → List β) (h : f l.before <+: f l.after) :
    f l.before ++ l.gained f = f l.after := by
  obtain ⟨more, hMore⟩ := h
  rw [gained_of_append hMore.symm, hMore]

end Leg

namespace Plan

/-- Where a walk goes on, fewer routers are open, or as many and fewer items wait. -/
theorem visit_nearer {plan : Plan σ} {p q : Progress σ} {id : String} {rest : List String}
    (hPending : p.pending = id :: rest)
    (hVisit : plan.visit id { p with pending := rest } = .goesOn q) :
    Prod.Lex (· < ·) (· < ·) ((plan.openRouters q.ledger).length, q.pending.length)
      ((plan.openRouters p.ledger).length, p.pending.length) := by
  rcases advances_visit plan id { p with pending := rest } q hVisit with ⟨hItems, hOpen⟩ | hOpen
  · have hFewer : q.pending.length < p.pending.length := by
      rw [hItems, hPending]
      exact Nat.lt_succ_self _
    rcases Nat.lt_or_eq_of_le hOpen with hLess | hSame
    · exact .left _ _ hLess
    · simp only at hSame
      rw [hSame]
      exact .right _ hFewer
  · exact .left _ _ hOpen

/-- The visits of a walk. -/
def legs (plan : Plan σ) (p : Progress σ) : List (Leg σ) :=
  match _hp : p.pending with
  | [] => []
  | id :: rest =>
    match _hv : plan.visit id { p with pending := rest } with
    | .goesOn q => ⟨id, { p with pending := rest }, .goesOn q⟩ :: plan.legs q
    | .ended q error => [⟨id, { p with pending := rest }, .ended q error⟩]
    | .brokenOff q why => [⟨id, { p with pending := rest }, .brokenOff q why⟩]
termination_by ((plan.openRouters p.ledger).length, p.pending.length)
decreasing_by exact visit_nearer _hp _hv

/-- A list that no visit shortens or changes, and that the queue has no part in. -/
structure Grows (plan : Plan σ) (f : Progress σ → List β) : Prop where
  item : ∀ p rest, f { p with pending := rest } = f p
  visit : ∀ id p, f p <+: f (plan.visit id p).parts.1

/-- A visit adds what its leg gains. -/
theorem Grows.append_gained {plan : Plan σ} {f : Progress σ → List β} (h : plan.Grows f)
    {p : Progress σ} {id : String} {rest : List String} {v : Visited σ}
    (hVisit : plan.visit id { p with pending := rest } = v) :
    f p ++ Leg.gained ⟨id, { p with pending := rest }, v⟩ f = f v.parts.1 := by
  have hPrefix : f { p with pending := rest } <+: f v.parts.1 := by
    rw [← hVisit]
    exact h.visit id { p with pending := rest }
  have hAppend := Leg.append_gained ⟨id, { p with pending := rest }, v⟩ f hPrefix
  rwa [h.item] at hAppend

/-- What has grown over a walk is what its legs have added. -/
theorem Grows.walk {plan : Plan σ} {f : Progress σ → List β} (h : plan.Grows f) (p : Progress σ) :
    f (plan.walk p).1 = f p ++ (plan.legs p).flatMap fun l => l.gained f := by
  fun_induction legs plan p with
  | case1 p hPending => simp [walk_eq, next?, hPending]
  | case2 p id rest hPending q hVisit ih =>
      rw [List.flatMap_cons, ← List.append_assoc, h.append_gained hVisit, walk_eq, next?, hPending]
      simp only [hVisit, Visited.parts]
      exact ih
  | case3 p id rest hPending q error hVisit =>
      rw [List.flatMap_singleton, h.append_gained hVisit, walk_eq, next?, hPending]
      simp only [hVisit, Visited.parts]
  | case4 p id rest hPending q why hVisit =>
      rw [List.flatMap_singleton, h.append_gained hVisit, walk_eq, next?, hPending]
      simp only [hVisit, Visited.parts]

/-- A leg begins where the walk has got to. -/
theorem reaches_of_mem_legs {plan : Plan σ} {p : Progress σ} {l : Leg σ} (h : l ∈ plan.legs p) :
    ∃ q rest, plan.Reaches p q ∧ q.pending = l.item :: rest ∧ l.before = { q with pending := rest } ∧
      l.visited = plan.visit l.item l.before := by
  fun_induction legs plan p with
  | case1 => cases h
  | case2 p id rest hPending q hVisit ih =>
      rcases List.mem_cons.mp h with rfl | hLater
      · exact ⟨p, rest, .refl, hPending, rfl, hVisit.symm⟩
      · obtain ⟨r, rest', hReach, hLeg⟩ := ih hLater
        exact ⟨r, rest', hReach.head (by simp [next?, hPending, hVisit]), hLeg⟩
  | case3 p id rest hPending q error hVisit =>
      cases List.mem_singleton.mp h
      exact ⟨p, rest, .refl, hPending, rfl, hVisit.symm⟩
  | case4 p id rest hPending q why hVisit =>
      cases List.mem_singleton.mp h
      exact ⟨p, rest, .refl, hPending, rfl, hVisit.symm⟩

/-- What is kept by all visits after which a walk goes on holds where each leg begins. -/
theorem before_of_mem_legs {plan : Plan σ} {start : Progress σ} {inv : Progress σ → Prop}
    {l : Leg σ} (hStart : inv start) (hItem : ∀ p rest, inv p → inv { p with pending := rest })
    (hVisit : ∀ id p, inv p → (plan.visit id p).parts.2 = .finished none →
      inv (plan.visit id p).parts.1)
    (h : l ∈ plan.legs start) : inv l.before := by
  obtain ⟨p, rest, hReach, -, hBefore, -⟩ := reaches_of_mem_legs h
  have hReached : inv p := hReach.keeps hStart hItem hVisit
  rw [hBefore]
  exact hItem p rest hReached

/-- A walk goes on after every leg but its last, and ends as that one does. -/
theorem ending_of_mem_legs {plan : Plan σ} {p : Progress σ} {l : Leg σ} (h : l ∈ plan.legs p) :
    l.visited.parts.2 = .finished none ∨ l.visited.parts.2 = (plan.walk p).2 := by
  fun_induction legs plan p with
  | case1 => cases h
  | case2 p id rest hPending q hVisit ih =>
      rw [walk_eq, next?, hPending]
      simp only [hVisit]
      rcases List.mem_cons.mp h with rfl | hLater
      · exact .inl rfl
      · exact ih hLater
  | case3 p id rest hPending q error hVisit =>
      rw [walk_eq, next?, hPending]
      simp only [hVisit]
      cases List.mem_singleton.mp h
      exact .inr rfl
  | case4 p id rest hPending q why hVisit =>
      rw [walk_eq, next?, hPending]
      simp only [hVisit]
      cases List.mem_singleton.mp h
      exact .inr rfl

/-- A walk that ends without an error has gone on after all of its visits, and nothing waits. -/
theorem finished_walk {plan : Plan σ} {p : Progress σ} (h : (plan.walk p).2 = .finished none) :
    (plan.walk p).1.pending = [] ∧ ∀ l ∈ plan.legs p, l.visited.parts.2 = .finished none := by
  refine ⟨?_, ?_⟩
  · obtain ⟨last, -, hStops⟩ := walk_stops plan p
    rcases hWalk : plan.walk p with ⟨q, ending⟩
    rw [hWalk] at h hStops
    obtain rfl : ending = .finished none := h
    obtain ⟨hNone, rfl⟩ := hStops
    exact next?_eq_none_iff.mp hNone
  · intro l hLeg
    rcases ending_of_mem_legs hLeg with hGoesOn | hLast
    · exact hGoesOn
    · exact hLast.trans h

/-- The items that have waited at first and those that legs have queued are the items of the legs
and those that still wait, in this order. -/
theorem items_eq (plan : Plan σ)
    (hVisit : ∀ id p, p.pending <+: (plan.visit id p).parts.1.pending) (p : Progress σ) :
    p.pending ++ (plan.legs p).flatMap Leg.queued =
      (plan.legs p).map Leg.item ++ (plan.walk p).1.pending := by
  have hFirst : ∀ (p : Progress σ) id rest v, plan.visit id { p with pending := rest } = v →
      rest ++ Leg.queued ⟨id, { p with pending := rest }, v⟩ = v.parts.1.pending := by
    rintro p id rest v rfl
    exact Leg.append_gained ⟨id, { p with pending := rest }, plan.visit id { p with pending := rest }⟩
      Progress.pending (hVisit id { p with pending := rest })
  fun_induction legs plan p with
  | case1 p hPending => simp [walk_eq, next?, hPending]
  | case2 p id rest hPending q hVisited ih =>
      have hQueued := hFirst p id rest _ hVisited
      rw [hPending, walk_eq, next?, hPending]
      simp only [hVisited, List.flatMap_cons, List.map_cons, List.cons_append, ← List.append_assoc]
      rw [hQueued, ← ih]
      rfl
  | case3 p id rest hPending q error hVisited =>
      have hQueued := hFirst p id rest _ hVisited
      rw [hPending, walk_eq, next?, hPending]
      simp only [hVisited, List.flatMap_singleton, List.map_cons, List.map_nil, List.cons_append,
        List.nil_append]
      rw [hQueued]
      rfl
  | case4 p id rest hPending q why hVisited =>
      have hQueued := hFirst p id rest _ hVisited
      rw [hPending, walk_eq, next?, hPending]
      simp only [hVisited, List.flatMap_singleton, List.map_cons, List.map_nil, List.cons_append,
        List.nil_append]
      rw [hQueued]
      rfl

/-- What a leg finds is what the legs before it have added. -/
theorem Grows.before {plan : Plan σ} {f : Progress σ → List β} (h : plan.Grows f) {p : Progress σ}
    {earlier later : List (Leg σ)} {l : Leg σ} (hLegs : plan.legs p = earlier ++ l :: later) :
    f l.before = f p ++ earlier.flatMap fun k => k.gained f := by
  have hHead : ∀ (p : Progress σ) id rest v ls, ⟨id, { p with pending := rest }, v⟩ :: ls = l :: later →
      f l.before = f p := by
    intro p id rest v ls hSame
    rw [← (List.cons.inj hSame).1]
    exact h.item p rest
  -- the walk and the legs before `l` lose their first leg together
  fun_induction legs plan p generalizing earlier with
  | case1 => simp at hLegs
  | case2 p id rest hPending q hVisit ih =>
      cases earlier with
      | nil => simp [hHead p id rest _ _ hLegs]
      | cons first earlier =>
          obtain ⟨hFirst, hRest⟩ := List.cons.inj hLegs
          rw [List.flatMap_cons, ← List.append_assoc, ← hFirst, h.append_gained hVisit]
          exact ih hRest
  | case3 p id rest hPending q error hVisit =>
      cases earlier with
      | nil => simp [hHead p id rest _ _ hLegs]
      | cons first earlier => simp at hLegs
  | case4 p id rest hPending q why hVisit =>
      cases earlier with
      | nil => simp [hHead p id rest _ _ hLegs]
      | cons first earlier => simp at hLegs

/-- A list that never shrinks begins as it does wherever the walk comes by. -/
theorem Grows.prefix_of_reaches {plan : Plan σ} {f : Progress σ → List β} {start p : Progress σ}
    (h : plan.Grows f) (hReach : plan.Reaches start p) : f p <+: f (plan.walk start).1 := by
  rw [hReach.walk_eq, h.walk p]
  exact List.prefix_append _ _

end Plan

namespace Engine

/-- The visits of a run, with notes of its calls. -/
def visits (e : Engine σ) (job : Job) (world : σ) : List (Leg (σ × List Call)) :=
  (e.opening job world).1.watched.legs (e.opening job world).2.watched

/-- The outcome of a run by its walk with notes. -/
theorem outcome_record {e : Engine σ} {job : Job} {world : σ} (hSteps : job.flow.steps ≠ []) :
    (e.run job world).1.outcome =
      e.outcomeOf job (e.host.seconds.run world).1
        ((e.record job world).1.unwatched, (e.record job world).2) := by
  have hWalk : (e.opening job world).1.walk (e.opening job world).2 =
      ((e.record job world).1.unwatched, (e.record job world).2) :=
    Plan.walk_unwatched (e.opening job world).1 (e.opening job world).2.watched
  rw [outcome_run hSteps, hWalk]

/-- A run that returns has come to the end of its walk, and its result is made of what is left
there. -/
theorem record_of_outcome {e : Engine σ} {job : Job} {world : σ} {r : RunResult}
    (hSteps : job.flow.steps ≠ []) (hOutcome : (e.run job world).1.outcome = .ok r) :
    ∃ error ms, (e.record job world).2 = .finished error ∧
      (e.record job world).1.isTold error = true ∧
      r = job.result (e.record job world).1 error ms := by
  rw [outcome_record hSteps] at hOutcome
  obtain ⟨error, hEnd, hTold, hResult⟩ := told_of_outcomeOf hOutcome
  exact ⟨error, _, hEnd, hTold, hResult⟩

/-- A run whose walk comes to its end returns if the end can be told. -/
theorem returns_of_record {e : Engine σ} {job : Job} {world : σ} {p : Progress (σ × List Call)}
    {error : Option String} (hSteps : job.flow.steps ≠ [])
    (hRecord : e.record job world = (p, .finished error)) (hTold : p.isTold error = true) :
    ∃ ms, (e.run job world).1.outcome = .ok (job.result p error ms) := by
  have hClosed : p.unwatched.isTold error = true := hTold
  rw [outcome_record hSteps, hRecord, outcomeOf_of_told hClosed]
  exact ⟨_, rfl⟩

end Engine

end StepFlow
