import Mathlib.Data.List.Forall2
import StepFlow.Fault

/-! Computations that can fail: one after the other, and one for each member of a list. What fails of
them is the first that does, and what comes of them comes of each. -/
namespace StepFlow

variable {α β : Type}

/-- What comes of two computations one after the other comes of both. -/
theorem exists_of_bind_eq_ok {x : Except Fault α} {next : α → Except Fault β} {b : β}
    (h : x >>= next = .ok b) : ∃ a, x = .ok a ∧ next a = .ok b := by
  cases x with
  | error f => cases h
  | ok a => exact ⟨a, rfl, h⟩

/-- What fails of two computations one after the other fails in one of them. -/
theorem or_exists_of_bind_eq_error {x : Except Fault α} {next : α → Except Fault β} {fault : Fault}
    (h : x >>= next = .error fault) : x = .error fault ∨ ∃ a, x = .ok a ∧ next a = .error fault := by
  cases x with
  | error e =>
      cases h
      exact .inl rfl
  | ok a => exact .inr ⟨a, rfl, h⟩

/-- A computation over a list comes to something when it does for all members. -/
theorem isOk_mapM (f : α → Except Fault β) (xs : List α) :
    (xs.mapM f).isOk = xs.all fun x => (f x).isOk := by
  induction xs with
  | nil => rfl
  | cons x rest ih =>
      rw [List.mapM_cons, List.all_cons, ← ih]
      cases f x with
      | error e => rfl
      | ok y => cases rest.mapM f <;> rfl

theorem mapM_eq_ok_iff {f : α → Except Fault β} {xs : List α} {ys : List β} :
    xs.mapM f = .ok ys ↔ List.Forall₂ (fun x y => f x = .ok y) xs ys := by
  induction xs generalizing ys with
  | nil =>
      rw [List.mapM_nil, List.forall₂_nil_left_iff]
      exact ⟨fun h => (Except.ok.inj h).symm, fun h => congrArg Except.ok h.symm⟩
  | cons x rest ih =>
      rw [List.mapM_cons, List.forall₂_cons_left_iff]
      constructor
      · intro h
        obtain ⟨y, hFirst, h⟩ := exists_of_bind_eq_ok h
        obtain ⟨later, hLater, h⟩ := exists_of_bind_eq_ok h
        exact ⟨y, later, hFirst, ih.mp hLater, (Except.ok.inj h).symm⟩
      · rintro ⟨y, later, hFirst, hLater, rfl⟩
        rw [hFirst, ih.mpr hLater]
        rfl

theorem exists_of_mapM_eq_ok {f : α → Except Fault β} {xs : List α} {ys : List β}
    (h : xs.mapM f = .ok ys) {x : α} (hMem : x ∈ xs) : ∃ y, f x = .ok y := by
  have hEach := isOk_mapM f xs
  rw [h] at hEach
  have hOk := List.all_eq_true.mp hEach.symm x hMem
  cases hComes : f x with
  | ok y => exact ⟨y, rfl⟩
  | error e =>
      rw [hComes] at hOk
      cases hOk

/-- A computation over a list fails as it does on some member. -/
theorem exists_of_mapM_eq_error {f : α → Except Fault β} {xs : List α} {fault : Fault}
    (h : xs.mapM f = .error fault) : ∃ x ∈ xs, f x = .error fault := by
  induction xs with
  | nil => cases h
  | cons x rest ih =>
      rw [List.mapM_cons] at h
      obtain hFirst | ⟨y, -, h⟩ := or_exists_of_bind_eq_error h
      · exact ⟨x, List.mem_cons_self, hFirst⟩
      · obtain hRest | ⟨ys, -, h⟩ := or_exists_of_bind_eq_error h
        · obtain ⟨z, hMem, hFailed⟩ := ih hRest
          exact ⟨z, List.mem_cons_of_mem x hMem, hFailed⟩
        · cases h

/-- What is collected over a list comes from its members. -/
theorem mem_flatten_of_mapM {f : α → Except Fault (List β)} {xs : List α} {parts : List (List β)}
    (h : xs.mapM f = .ok parts) {b : β} :
    b ∈ parts.flatten ↔ ∃ x ∈ xs, ∃ part, f x = .ok part ∧ b ∈ part := by
  induction mapM_eq_ok_iff.mp h with
  | nil => simp
  | @cons x part xs parts hPart hLater ih =>
      have hRest := ih (mapM_eq_ok_iff.mpr hLater)
      rw [List.flatten_cons, List.mem_append, hRest, List.exists_mem_cons_iff]
      simp [hPart]

/-- Lists that are collected are all empty exactly when each computation comes to none. -/
theorem collected_eq_nil_iff (f : α → Except Fault (List β)) (xs : List α) :
    (do return (← xs.mapM f).flatten : Except Fault (List β)) = .ok [] ↔ ∀ x ∈ xs, f x = .ok [] := by
  induction xs with
  | nil => simp [pure, Except.pure, bind, Except.bind]
  | cons x rest ih =>
      rw [List.forall_mem_cons, ← ih, List.mapM_cons]
      rcases f x with fault | _ | ⟨y, ys⟩
      · simp [bind, Except.bind]
      · cases rest.mapM f with
        | error fault => simp [bind, Except.bind]
        | ok found => simp [pure, Except.pure, bind, Except.bind]
      · cases rest.mapM f with
        | error fault => simp [bind, Except.bind]
        | ok found => simp [pure, Except.pure, bind, Except.bind]

end StepFlow
