import Mathlib.Data.List.Nodup
import StepFlow.Table

/-! Names in tables. Whatever is put into a table, it has each name once, and what reads under a name
is what was put last; entries under new names are added at the end. -/
namespace StepFlow.Table

variable {α : Type}

theorem mem_keys_put {t : Table α} {name other : String} {a : α} :
    other ∈ (t.put name a).keys ↔ other ∈ t.keys ∨ other = name := by
  rw [keys_put]
  split
  · rename_i hKnown
    exact ⟨.inl, fun h => h.elim id fun hSame => hSame ▸ hKnown⟩
  · rw [List.mem_append, List.mem_singleton]

theorem nodup_keys_put {t : Table α} (h : t.keys.Nodup) (name : String) (a : α) :
    (t.put name a).keys.Nodup := by
  rw [keys_put]
  split
  · exact h
  · rename_i hNew
    rw [List.nodup_append]
    exact ⟨h, List.nodup_singleton name, fun k hMem l hOther hSame => by
      rw [List.mem_singleton] at hOther
      exact hNew (hOther ▸ hSame ▸ hMem)⟩

/-- A table keeps its names apart, whatever is put into it. -/
theorem nodup_keys_merge {t : Table α} (h : t.keys.Nodup) (extra : Table α) :
    (t.merge extra).keys.Nodup := by
  unfold merge
  induction extra generalizing t with
  | nil => exact h
  | cons entry extra ih => exact ih (nodup_keys_put h entry.1 entry.2)

theorem mem_keys_merge {t extra : Table α} {name : String} :
    name ∈ (t.merge extra).keys ↔ name ∈ t.keys ∨ name ∈ extra.keys := by
  unfold merge
  induction extra generalizing t with
  | nil => simp [keys]
  | cons entry extra ih =>
      rw [List.foldl_cons, ih, mem_keys_put]
      simp only [keys, List.map_cons, List.mem_cons, or_assoc]

/-- What is in a table with further entries was in it or is one of them. -/
theorem mem_of_mem_put {t : Table α} {entry : String × α} {name : String} {a : α}
    (h : entry ∈ t.put name a) : entry ∈ t ∨ entry = (name, a) := by
  induction t with
  | nil => exact .inr (List.mem_singleton.mp h)
  | cons first t ih =>
      obtain ⟨k, b⟩ := first
      rw [put] at h
      split at h
      · rename_i hSame
        rcases List.mem_cons.mp h with rfl | hMem
        · exact .inr (hSame ▸ rfl)
        · exact .inl (List.mem_cons_of_mem _ hMem)
      · rcases List.mem_cons.mp h with rfl | hMem
        · exact .inl List.mem_cons_self
        · exact (ih hMem).imp_left (List.mem_cons_of_mem _)

theorem mem_of_mem_merge {t extra : Table α} {entry : String × α} (h : entry ∈ t.merge extra) :
    entry ∈ t ∨ entry ∈ extra := by
  unfold merge at h
  induction extra generalizing t with
  | nil => exact .inl h
  | cons first extra ih =>
      rcases ih h with hMem | hMem
      · rcases mem_of_mem_put hMem with hMem | rfl
        · exact .inl hMem
        · exact .inr List.mem_cons_self
      · exact .inr (List.mem_cons_of_mem _ hMem)

theorem put_of_new {t : Table α} {name : String} (h : name ∉ t.keys) (a : α) :
    t.put name a = t ++ [(name, a)] := by
  induction t with
  | nil => rfl
  | cons entry t ih =>
      obtain ⟨k, b⟩ := entry
      simp only [keys, List.map_cons, List.mem_cons, not_or] at h
      rw [put, if_neg (Ne.symm h.1), ih h.2]
      rfl

/-- Entries of names that are new, and one name each, are added at the end. -/
theorem merge_of_new {t extra : Table α} (hOnce : extra.keys.Nodup)
    (hNew : ∀ name ∈ extra.keys, name ∉ t.keys) : t.merge extra = t ++ extra := by
  unfold merge
  induction extra generalizing t with
  | nil => exact (List.append_nil t).symm
  | cons entry extra ih =>
      obtain ⟨k, b⟩ := entry
      simp only [keys, List.map_cons, List.nodup_cons, List.mem_cons, forall_eq_or_imp] at hOnce hNew
      rw [List.foldl_cons, put_of_new hNew.1, ih hOnce.2, List.append_assoc]
      · rfl
      · intro name hMem hKnown
        simp only [keys, List.map_append, List.map_cons, List.map_nil, List.mem_append,
          List.mem_singleton] at hKnown
        rcases hKnown with hKnown | rfl
        · exact hNew.2 name hMem hKnown
        · exact hOnce.1 hMem

/-- What reads after entries are put is the last of them under the name, else what was there. -/
theorem get?_merge_last (t extra : Table α) (name : String) :
    (t.merge extra).get? name =
      ((extra.reverse.find? fun entry => entry.1 = name).map Prod.snd).or (t.get? name) := by
  induction extra generalizing t with
  | nil => rfl
  | cons entry extra ih =>
      obtain ⟨k, a⟩ := entry
      have hMerge : t.merge ((k, a) :: extra) = (t.put k a).merge extra := rfl
      rw [hMerge, ih, List.reverse_cons, List.find?_append, Option.map_or, Option.or_assoc]
      congr 1
      by_cases hName : k = name
      · simp [hName]
      · simp [hName, get?_put_ne (Ne.symm hName)]

theorem mem_of_get? {t : Table α} {name : String} {a : α} (h : t.get? name = some a) :
    (name, a) ∈ t := by
  induction t with
  | nil => cases h
  | cons entry t ih =>
      obtain ⟨k, b⟩ := entry
      rw [get?_cons] at h
      split at h
      · rename_i hSame
        cases h
        exact hSame ▸ List.mem_cons_self
      · exact List.mem_cons_of_mem _ (ih h)

/-- What reads after entries with names of their own are put: one of them, else what was there. -/
theorem get?_merge {extra : Table α} (hOnce : extra.keys.Nodup) (t : Table α) (name : String) :
    (t.merge extra).get? name = (extra.get? name).or (t.get? name) := by
  induction extra generalizing t with
  | nil => rfl
  | cons entry extra ih =>
      obtain ⟨k, a⟩ := entry
      obtain ⟨hNew, hRest⟩ := List.nodup_cons.mp hOnce
      have hMerge : t.merge ((k, a) :: extra) = (t.put k a).merge extra := rfl
      rw [hMerge, ih hRest, get?_cons]
      by_cases hName : k = name
      · subst hName
        have hNone : get? extra k = none := by
          rw [← Option.not_isSome_iff_eq_none]
          exact fun hSome => hNew ((contains_iff_mem_keys extra k).mp hSome)
        simp [hNone]
      · rw [get?_put_ne (Ne.symm hName), if_neg hName]

/-- Where each name is once, what stands under a name is what reads under it. -/
theorem get?_of_mem {t : Table α} {name : String} {a : α} (hOnce : t.keys.Nodup)
    (hMem : (name, a) ∈ t) : t.get? name = some a := by
  induction t with
  | nil => cases hMem
  | cons entry t ih =>
      obtain ⟨k, b⟩ := entry
      obtain ⟨hNew, hRest⟩ := List.nodup_cons.mp hOnce
      rw [get?_cons]
      rcases List.mem_cons.mp hMem with hFirst | hMem
      · cases hFirst
        exact if_pos rfl
      · have hOther : k ≠ name := by
          rintro rfl
          exact hNew (List.mem_map.mpr ⟨_, hMem, rfl⟩)
        rw [if_neg hOther]
        exact ih hRest hMem

end StepFlow.Table
