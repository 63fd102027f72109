import StepFlow.Worklist

/-! Worklists that several readers share. Whoever takes items and whenever others are added, the
items are taken in the order in which they came, each of them once, and none is lost. A reader that
found nothing is done with: what is added later waits for another one. -/
namespace StepFlow.Worklist

variable {α : Type}

theorem take_of_spent (w : Worklist α) {r : Reader} (h : r.spent = true) :
    w.take r = (none, w, r) := by
  simp [take, h]

/-- A reader that finds nothing is spent. -/
theorem take_nil {w : Worklist α} {r : Reader} (h : r.spent = false) (hPending : w.pending = []) :
    w.take r = (none, w, ⟨true⟩) := by
  simp [take, h, hPending]

theorem take_cons {w : Worklist α} {r : Reader} {a : α} {rest : List α} (h : r.spent = false)
    (hPending : w.pending = a :: rest) : w.take r = (some a, ⟨w.taken ++ [a], rest⟩, r) := by
  simp [take, h, hPending]

/-- What can be done with a worklist: items are added, a further reader is made, or a reader takes
the next item. Readers are numbered as they are made. -/
inductive Use (α : Type) where
  | enqueue (a : α)
  | extend (more : List α)
  | newReader
  | take (reader : Nat)

/-- The items that a use adds. -/
def Use.added : Use α → List α
  | .enqueue a => [a]
  | .extend more => more
  | .newReader => []
  | .take _ => []

/-- A worklist and the readers made so far. -/
structure Shared (α : Type) where
  list : Worklist α
  readers : List Reader

namespace Shared

def start (items : List α) : Shared α := ⟨.ofList items, []⟩

/-- One use. What is taken is told with the number of the reader; a number without a reader takes
nothing. -/
def use (s : Shared α) : Use α → Option (Nat × α) × Shared α
  | .enqueue a => (none, { s with list := s.list.enqueue a })
  | .extend more => (none, { s with list := s.list.extend more })
  | .newReader => (none, { s with readers := s.readers ++ [Worklist.newReader] })
  | .take n =>
    match s.readers[n]? with
    | none => (none, s)
    | some r =>
      let (item, list, r) := s.list.take r
      (item.map fun a => (n, a), ⟨list, s.readers.set n r⟩)

/-- Uses one after the other, with all that is taken, in the order of time. -/
def run (s : Shared α) : List (Use α) → List (Nat × α) × Shared α
  | [] => ([], s)
  | u :: us => ((s.use u).1.toList ++ ((s.use u).2.run us).1, ((s.use u).2.run us).2)

/-- A reader that has found nothing. -/
def IsSpent (s : Shared α) (n : Nat) : Prop := ∃ r, s.readers[n]? = some r ∧ r.spent = true

/-- A reader that has always found something. -/
def IsLive (s : Shared α) (n : Nat) : Prop := ∃ r, s.readers[n]? = some r ∧ r.spent = false

variable {s : Shared α} {n : Nat}

theorem set_readers_self {r : Reader} (h : s.readers[n]? = some r) :
    s.readers.set n r = s.readers := by
  obtain ⟨hLength, rfl⟩ := List.getElem?_eq_some_iff.mp h
  exact List.set_getElem_self hLength

/-- What a spent reader is asked for changes nothing. -/
theorem use_take_of_spent (h : s.IsSpent n) : s.use (.take n) = (none, s) := by
  obtain ⟨r, hReader, hSpent⟩ := h
  simp [use, hReader, take_of_spent s.list hSpent, set_readers_self hReader]

/-- A live reader that finds nothing is spent from then on. -/
theorem use_take_nil (h : s.IsLive n) (hPending : s.list.pending = []) :
    (s.use (.take n)).1 = none ∧ (s.use (.take n)).2.IsSpent n := by
  obtain ⟨r, hReader, hLive⟩ := h
  have hUse : s.use (.take n) = (none, { s with readers := s.readers.set n ⟨true⟩ }) := by
    simp [use, hReader, take_nil hLive hPending]
  have hLength : n < s.readers.length := (List.getElem?_eq_some_iff.mp hReader).1
  rw [hUse]
  exact ⟨rfl, ⟨true⟩, List.getElem?_set_self hLength, rfl⟩

/-- A live reader takes the first pending item and stays live. -/
theorem use_take_cons {a : α} {rest : List α} (h : s.IsLive n)
    (hPending : s.list.pending = a :: rest) :
    s.use (.take n) = (some (n, a), { s with list := ⟨s.list.taken ++ [a], rest⟩ }) := by
  obtain ⟨r, hReader, hLive⟩ := h
  simp [use, hReader, take_cons hLive hPending, set_readers_self hReader]

/-- A use adds its own items at the end and loses none. -/
theorem items_use (s : Shared α) (u : Use α) :
    (s.use u).2.list.items = s.list.items ++ u.added := by
  cases u with
  | enqueue a => exact items_extend s.list [a]
  | extend more => exact items_extend s.list more
  | newReader => exact (List.append_nil _).symm
  | take n =>
      rw [Use.added, List.append_nil, use]
      cases s.readers[n]? with
      | none => rfl
      | some r => exact items_take s.list r

/-- What a use takes is the next item taken from the list. -/
theorem taken_use (s : Shared α) (u : Use α) :
    (s.use u).2.list.taken = s.list.taken ++ (s.use u).1.toList.map Prod.snd := by
  cases u with
  | enqueue a => exact (List.append_nil _).symm
  | extend more => exact (List.append_nil _).symm
  | newReader => exact (List.append_nil _).symm
  | take n =>
      rw [use]
      cases s.readers[n]? with
      | none => exact (List.append_nil _).symm
      | some r =>
          cases hSpent : r.spent with
          | true => simp [take_of_spent s.list hSpent]
          | false =>
              cases hPending : s.list.pending with
              | nil => simp [take_nil hSpent hPending]
              | cons a rest => simp [take_cons hSpent hPending]

theorem items_run (s : Shared α) (us : List (Use α)) :
    (s.run us).2.list.items = s.list.items ++ us.flatMap Use.added := by
  induction us generalizing s with
  | nil => exact (List.append_nil _).symm
  | cons u us ih => rw [run, ih, items_use, List.flatMap_cons, List.append_assoc]

/-- All readers together take what the list says is taken. -/
theorem taken_run (s : Shared α) (us : List (Use α)) :
    (s.run us).2.list.taken = s.list.taken ++ (s.run us).1.map Prod.snd := by
  induction us generalizing s with
  | nil => exact (List.append_nil _).symm
  | cons u us ih => rw [run, ih, taken_use, List.map_append, List.append_assoc]

/-- No use brings a spent reader back, and none is told of it. -/
theorem IsSpent.use (h : s.IsSpent n) (u : Use α) :
    (s.use u).2.IsSpent n ∧ ∀ a, (s.use u).1 ≠ some (n, a) := by
  have hSpent := h
  obtain ⟨r, hReader, hTrue⟩ := h
  cases u with
  | enqueue a => exact ⟨hSpent, nofun⟩
  | extend more => exact ⟨hSpent, nofun⟩
  | newReader =>
      have hLength : n < s.readers.length := (List.getElem?_eq_some_iff.mp hReader).1
      exact ⟨⟨r, (List.getElem?_append_left hLength).trans hReader, hTrue⟩, nofun⟩
  | take m =>
      by_cases hSame : m = n
      · subst hSame
        rw [use_take_of_spent hSpent]
        exact ⟨hSpent, nofun⟩
      · rw [Shared.use]
        cases s.readers[m]? with
        | none => exact ⟨hSpent, nofun⟩
        | some q =>
            refine ⟨⟨r, (List.getElem?_set_ne hSame).trans hReader, hTrue⟩, ?_⟩
            intro a hTold
            obtain ⟨b, -, hPair⟩ := Option.map_eq_some_iff.mp hTold
            exact hSame (congrArg Prod.fst hPair)

/-- A spent reader takes nothing more, whatever is done. -/
theorem IsSpent.run (h : s.IsSpent n) (us : List (Use α)) : ∀ a, (n, a) ∉ (s.run us).1 := by
  induction us generalizing s with
  | nil => exact fun a => List.not_mem_nil
  | cons u us ih =>
      intro a hMem
      rcases List.mem_append.mp hMem with hNow | hLater
      · exact (h.use u).2 a (Option.mem_toList.mp hNow)
      · exact ih (h.use u).1 a hLater

/-- While spent readers alone are asked, all that is added stays pending. -/
theorem run_of_spent {us : List (Use α)} (h : ∀ m, .take m ∈ us → s.IsSpent m) :
    (s.run us).1 = [] ∧ (s.run us).2.list.pending = s.list.pending ++ us.flatMap Use.added := by
  induction us generalizing s with
  | nil => exact ⟨rfl, (List.append_nil _).symm⟩
  | cons u us ih =>
      have hNone : (s.use u).1 = none ∧
          (s.use u).2.list.pending = s.list.pending ++ u.added := by
        cases u with
        | enqueue a => exact ⟨rfl, rfl⟩
        | extend more => exact ⟨rfl, rfl⟩
        | newReader => exact ⟨rfl, (List.append_nil _).symm⟩
        | take m =>
            rw [use_take_of_spent (h m List.mem_cons_self)]
            exact ⟨rfl, (List.append_nil _).symm⟩
      obtain ⟨hTaken, hPending⟩ := @ih (s.use u).2 fun m hMem =>
        ((h m (List.mem_cons_of_mem _ hMem)).use u).1
      rw [run, hNone.1, hTaken, hPending, hNone.2, List.flatMap_cons, List.append_assoc]
      exact ⟨rfl, rfl⟩

/-- Readers share a worklist without losing or repeating anything. Whatever was done, in whatever
order: what all readers have taken, in the order of time, and then what is pending are the items in
the order in which they came, so the item taken at some turn is the one that came at that turn, and
as many are counted as ever came. A reader begins live, and a live reader takes the first item that
is pending. If there is none it is spent, takes nothing any more, and leaves what is added from then
on pending for others. -/
theorem taken_in_order (items : List α) (us : List (Use α)) :
    let taken := ((start items).run us).1
    let s := ((start items).run us).2
    let all := items ++ us.flatMap Use.added
    taken.map Prod.snd ++ s.list.pending = all ∧
    s.list.size = all.length ∧
    (∀ (turn n : Nat) (a : α), taken[turn]? = some (n, a) → all[turn]? = some a) ∧
    (all.Nodup → (taken.map Prod.snd).Nodup) ∧
    (s.use .newReader).2.IsLive s.readers.length ∧
    (∀ n, s.IsLive n →
      (s.use (.take n)).1 = s.list.pending.head?.map (fun a => (n, a)) ∧
      (if s.list.pending = [] then (s.use (.take n)).2.IsSpent n
        else (s.use (.take n)).2.IsLive n)) ∧
    (∀ n, s.IsSpent n → s.use (.take n) = (none, s) ∧ ∀ more a, (n, a) ∉ (s.run more).1) ∧
    (∀ more : List (Use α), (∀ n, .take n ∈ more → s.IsSpent n) → (s.run more).1 = [] ∧
      (s.run more).2.list.pending = s.list.pending ++ more.flatMap Use.added) := by
  intro taken s all
  have hItems : s.list.items = all := items_run (start items) us
  have hTaken : s.list.taken = taken.map Prod.snd := taken_run (start items) us
  have hAll : taken.map Prod.snd ++ s.list.pending = all := by
    rw [← hTaken]
    exact hItems
  refine ⟨hAll, congrArg List.length hItems, ?_, ?_, ?_, ?_, ?_, fun more => run_of_spent⟩
  · intro turn n a hTurn
    have hSecond : (taken.map Prod.snd)[turn]? = some a := by
      rw [List.getElem?_map, hTurn]
      rfl
    rw [← hAll, List.getElem?_append_left (List.getElem?_eq_some_iff.mp hSecond).1, hSecond]
  · intro hDistinct
    exact hDistinct.sublist (hAll ▸ List.sublist_append_left _ _)
  · exact ⟨Worklist.newReader, List.getElem?_concat_length, rfl⟩
  · intro n hLive
    cases hPending : s.list.pending with
    | nil => simpa using use_take_nil hLive hPending
    | cons a rest =>
        rw [use_take_cons hLive hPending]
        exact ⟨rfl, hLive⟩
  · intro n hSpent
    exact ⟨use_take_of_spent hSpent, fun more => hSpent.run more⟩

end Shared

end StepFlow.Worklist
