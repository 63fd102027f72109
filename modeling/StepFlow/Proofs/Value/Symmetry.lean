import StepFlow.Proofs.Number.Double
import StepFlow.Proofs.Table
import StepFlow.Value.Equality

/-! Equality of values is symmetric. Lists agree place by place, and mappings and sets by matching
what is in the one with what is in the other. Since nothing is in them twice, a matching of all of
the one that is as long as the other is a matching of all of the other. -/
namespace StepFlow

section Matching

variable {α β : Type} {M : α → β → Prop} {N : β → α → Prop} {xs : List α} {ys : List β}

/-- If all of a list have a match in another that is no longer, and no two of them one match, all
of the other are matched. -/
theorem exists_of_matching (hApart : xs.Pairwise fun x x' => ∀ y ∈ ys, M x y → ¬ M x' y)
    (hLength : ys.length ≤ xs.length) (hAll : ∀ x ∈ xs, ∃ y ∈ ys, M x y) :
    ∀ y ∈ ys, ∃ x ∈ xs, M x y := by
  induction xs generalizing ys with
  | nil =>
    rw [List.eq_nil_of_length_eq_zero (Nat.le_zero.mp hLength)]
    intro y hMem
    cases hMem
  | cons x rest ih =>
    obtain ⟨hFirst, hRest⟩ := List.pairwise_cons.mp hApart
    obtain ⟨y, hMem, hMatch⟩ := hAll x List.mem_cons_self
    -- without the match of the first, what is left still matches all the others
    obtain ⟨before, behind, rfl⟩ := List.append_of_mem hMem
    have hSplit : ∀ {y'}, y' ∈ before ++ y :: behind ↔ y' = y ∨ y' ∈ before ++ behind := by
      simp [or_left_comm]
    have hOthers : ∀ y' ∈ before ++ behind, ∃ x' ∈ rest, M x' y' := by
      refine ih (hRest.imp fun h y' hMem' => h y' (hSplit.mpr (.inr hMem'))) ?_ ?_
      · simp only [List.length_append, List.length_cons] at hLength ⊢
        omega
      · intro x' hMem'
        obtain ⟨y', hIn, hMatch'⟩ := hAll x' (List.mem_cons_of_mem _ hMem')
        refine ⟨y', (hSplit.mp hIn).resolve_left ?_, hMatch'⟩
        rintro rfl
        exact hFirst x' hMem' y' hMem hMatch hMatch'
    intro y' hIn
    rcases hSplit.mp hIn with rfl | hOther
    · exact ⟨x, List.mem_cons_self, hMatch⟩
    · obtain ⟨x', hMem', hMatch'⟩ := hOthers y' hOther
      exact ⟨x', List.mem_cons_of_mem _ hMem', hMatch'⟩

/-- Between lists of one length a matching of all of the one is a matching of all of the other. -/
theorem matching_comm (hLength : xs.length = ys.length)
    (hConverse : ∀ x ∈ xs, ∀ y ∈ ys, (M x y ↔ N y x))
    (hLeft : xs.Pairwise fun x x' => ∀ y ∈ ys, M x y → ¬ M x' y)
    (hRight : ys.Pairwise fun y y' => ∀ x ∈ xs, N y x → ¬ N y' x) :
    (∀ x ∈ xs, ∃ y ∈ ys, M x y) ↔ ∀ y ∈ ys, ∃ x ∈ xs, N y x := by
  constructor
  · intro hAll y hMem
    obtain ⟨x, hIn, hMatch⟩ := exists_of_matching hLeft hLength.ge hAll y hMem
    exact ⟨x, hIn, (hConverse x hIn y hMem).mp hMatch⟩
  · intro hAll x hMem
    obtain ⟨y, hIn, hMatch⟩ := exists_of_matching hRight hLength.le hAll x hMem
    exact ⟨y, hIn, (hConverse x hMem y hIn).mpr hMatch⟩

end Matching

namespace Quantity

theorem same_comm (p q : Quantity) : p.same q = q.same p := by
  cases p with
  | int m =>
    cases q with
    | int n => exact BEq.comm
    | real y => rfl
  | real x =>
    cases q with
    | int n => rfl
    | real y => exact BEq.comm

theorem same_trans {p q r : Quantity} (h : p.same q = true) (h' : q.same r = true) :
    p.same r = true := by
  cases p with
  | int m =>
    cases q with
    | int n =>
      rw [show m = n from beq_iff_eq.mp h]
      exact h'
    | real y =>
      cases r with
      | int k =>
        have hInteger : some m = some k := (beq_iff_eq.mp h).symm.trans (beq_iff_eq.mp h')
        exact beq_iff_eq.mpr (Option.some.inj hInteger)
      | real z => exact beq_iff_eq.mpr ((Number.integral?_of_beq h').symm.trans (beq_iff_eq.mp h))
  | real x =>
    cases q with
    | int n =>
      cases r with
      | int k =>
        rw [← show n = k from beq_iff_eq.mp h']
        exact h
      | real z => exact Number.beq_of_integral? (beq_iff_eq.mp h) (beq_iff_eq.mp h')
    | real y =>
      cases r with
      | int k => exact beq_iff_eq.mpr ((Number.integral?_of_beq h).trans (beq_iff_eq.mp h'))
      | real z => exact BEq.trans h h'

end Quantity

namespace Timestamp

theorem same_comm (s t : Timestamp) : s.same t = t.same s := by
  unfold same
  cases s.instant? <;> cases t.instant?
  · exact decide_eq_decide.mpr eq_comm
  · exact decide_eq_decide.mpr eq_comm
  · exact decide_eq_decide.mpr eq_comm
  · exact BEq.comm

theorem same_iff {s t : Timestamp} : s.same t = true ↔
    s = t ∨ ∃ p, s.instant? = some p ∧ t.instant? = some p := by
  unfold same
  split
  · rename_i p q hs ht
    rw [beq_iff_eq, hs, ht]
    constructor
    · rintro rfl
      exact .inr ⟨p, rfl, rfl⟩
    · rintro (rfl | ⟨r, hp, hq⟩)
      · exact Option.some.inj (hs.symm.trans ht)
      · exact Option.some.inj (hp.trans hq.symm)
  · rename_i hNot
    rw [decide_eq_true_iff]
    exact ⟨.inl, fun h => h.resolve_right fun ⟨p, hs, ht⟩ => hNot p p hs ht⟩

theorem same_trans {s t u : Timestamp} (h : s.same t = true) (h' : t.same u = true) :
    s.same u = true := by
  rw [same_iff] at h h' ⊢
  rcases h with rfl | ⟨p, hs, ht⟩
  · exact h'
  · rcases h' with rfl | ⟨q, ht', hu⟩
    · exact .inr ⟨p, hs, ht⟩
    · exact .inr ⟨p, hs, by rw [hu, ← ht', ht]⟩

end Timestamp

namespace Value

/-- Whether one value passes for another inside lists, sets and mappings. -/
def passesFor (v w : Value) : Bool := isOne v w || same v w

/-- A value of which none is in another twice: mappings have each of their names once, and sets
each of their members. What is a name or a member holds no values of its own. -/
inductive Distinct : Value → Prop
  | sole {v : Value} (h : v.isHashable = true) : Distinct v
  | list {items : List Value} (h : ∀ v ∈ items, Distinct v) : Distinct (.list items)
  | set {members : List Value} (hSole : ∀ v ∈ members, v.isHashable = true)
      (hApart : members.Pairwise fun v w => v.passesFor w = false) : Distinct (.set members)
  | map {fields : Table Value} (hApart : fields.keys.Nodup)
      (h : ∀ entry ∈ fields, Distinct entry.2) : Distinct (.map fields)
  | keyed {entries : List (Value × Value)} (hSole : ∀ entry ∈ entries, entry.1.isHashable = true)
      (hApart : entries.Pairwise fun entry other => entry.1.passesFor other.1 = false)
      (h : ∀ entry ∈ entries, Distinct entry.2) : Distinct (.keyed entries)

theorem isOne_comm (v w : Value) : isOne v w = isOne w v := by
  cases v with
  | nan m =>
    cases w with
    | nan n => exact BEq.comm
    | _ => rfl
  | _ => cases w <;> rfl

/-- A number equals what holds an equal number. -/
theorem same_of_quantity {v : Value} {p : Quantity} (hv : v.quantity? = some p) (w : Value) :
    v.same w = (w.quantity?.map p.same).getD false := by
  rw [same.eq_def]
  cases v with
  | bool | int | real | nan =>
    cases hv
    cases w <;> rfl
  | null | text | bytes | timestamp | list | set | map | keyed | record => cases hv

/-- Equality of values that hold no values. -/
inductive Alike : Value → Value → Prop
  | null : Alike .null .null
  | text (s : String) : Alike (.text s) (.text s)
  | bytes (content : Text.Bytes) : Alike (.bytes content) (.bytes content)
  | timestamp {s t : Timestamp} (h : s.same t = true) : Alike (.timestamp s) (.timestamp t)
  | record (mark : Mark) (shown : String) {attributes attributes' : List (String × Value)}
      {failing failing' : List (String × String)} :
      Alike (.record mark shown attributes failing) (.record mark shown attributes' failing')
  | number {v w : Value} {p q : Quantity} (hv : v.quantity? = some p) (hw : w.quantity? = some q)
      (h : p.same q = true) : Alike v w

theorem Alike.symm {v w : Value} (h : Alike v w) : Alike w v := by
  cases h with
  | null => exact .null
  | text s => exact .text s
  | bytes content => exact .bytes content
  | timestamp h => exact .timestamp (by rwa [Timestamp.same_comm])
  | record mark shown => exact .record mark shown
  | number hv hw h => exact .number hw hv (by rwa [Quantity.same_comm])

theorem Alike.trans {u v w : Value} (h : Alike u v) (h' : Alike v w) : Alike u w := by
  cases h with
  | null => exact h'
  | text s => exact h'
  | bytes content => exact h'
  | timestamp h =>
    cases h' with
    | timestamp h' => exact .timestamp (Timestamp.same_trans h h')
    | number hv => cases hv
  | record mark shown =>
    cases h' with
    | record => exact .record mark shown
    | number hv => cases hv
  | number hu hv h =>
    cases h' with
    | number hv' hw h' =>
      cases hv.symm.trans hv'
      exact .number hu hw (Quantity.same_trans h h')
    | _ => cases hv

theorem same_of_alike {v w : Value} (h : Alike v w) : v.same w = true := by
  cases h with
  | number hv hw h => rw [same_of_quantity hv, hw]; exact h
  | timestamp h => rw [same]; exact h
  | _ => simp [same]

theorem alike_of_same {v w : Value} (hSole : v.isHashable = true ∨ w.isHashable = true)
    (h : v.same w = true) : Alike v w := by
  cases hv : v.quantity? with
  | some p =>
    rw [same_of_quantity hv] at h
    cases hw : w.quantity? with
    | some q => exact .number hv hw (by simpa [hw] using h)
    | none => simp [hw] at h
  | none =>
    rw [same.eq_def] at h
    cases v with
    | null => cases w <;> first | exact .null | cases h
    | text s => cases w <;> first | (cases beq_iff_eq.mp h; exact .text s) | cases h
    | bytes content => cases w <;> first | (cases beq_iff_eq.mp h; exact .bytes content) | cases h
    | timestamp t => cases w <;> first | exact .timestamp h | cases h
    | record mark shown =>
      cases w with
      | record mark' shown' =>
        obtain ⟨hMark, hShown⟩ := Bool.and_eq_true_iff.mp h
        cases beq_iff_eq.mp hMark
        cases beq_iff_eq.mp hShown
        exact .record mark shown
      | _ => cases h
    | list | set | map | keyed => cases w <;> first | cases h | simp [isHashable] at hSole
    | bool | int | real | nan => cases hv

theorem same_comm_of_hashable {v w : Value} (hSole : v.isHashable = true ∨ w.isHashable = true) :
    v.same w = w.same v :=
  Bool.eq_iff_iff.mpr
    ⟨fun h => same_of_alike (alike_of_same hSole h).symm,
      fun h => same_of_alike (alike_of_same hSole.symm h).symm⟩

theorem eq_of_isOne {v w : Value} (h : isOne v w = true) : v = w := by
  cases v with
  | nan m =>
    cases w with
    | nan n => rw [beq_iff_eq.mp h]
    | _ => cases h
  | _ => cases w <;> cases h

theorem passesFor_comm {v w : Value} (h : v.same w = w.same v) :
    v.passesFor w = w.passesFor v := by
  rw [passesFor, passesFor, isOne_comm, h]

/-- What holds no values passes for what passes for the same. -/
theorem passesFor_trans {u v w : Value} (hSole : v.isHashable = true)
    (h : u.passesFor v = true) (h' : v.passesFor w = true) : u.passesFor w = true := by
  rcases Bool.or_eq_true_iff.mp h with hOne | hSame
  · rwa [eq_of_isOne hOne]
  · rcases Bool.or_eq_true_iff.mp h' with hOne' | hSame'
    · rwa [← eq_of_isOne hOne']
    · exact Bool.or_eq_true_iff.mpr (.inr (same_of_alike
        ((alike_of_same (.inr hSole) hSame).trans (alike_of_same (.inl hSole) hSame'))))

/-- No two of what holds no values and does not pass for each other pass for one. -/
theorem not_passesFor_of_apart {u u' v : Value} (hSole : v.isHashable = true)
    (hApart : u.passesFor u' = false) (h : u.passesFor v = true) :
    ¬ u'.passesFor v = true := by
  intro h'
  rw [passesFor_comm (same_comm_of_hashable (.inr hSole))] at h'
  rw [passesFor_trans hSole h h'] at hApart
  cases hApart

theorem sameMembers_iff (xs ys : List Value) :
    sameMembers xs ys = true ↔ ∀ v ∈ xs, ∃ w ∈ ys, v.passesFor w = true := by
  induction xs with
  | nil => simp [sameMembers]
  | cons v rest ih => simp [sameMembers, ih, passesFor]

theorem sameEntries_iff (xs ys : List (Value × Value)) :
    sameEntries xs ys = true ↔
      ∀ x ∈ xs, ∃ y ∈ ys, x.1.passesFor y.1 = true ∧ x.2.passesFor y.2 = true := by
  induction xs with
  | nil => simp [sameEntries]
  | cons x rest ih =>
    obtain ⟨k, v⟩ := x
    simp [sameEntries, ih, passesFor]

theorem sameFields_cons (name : String) (v : Value) (rest ys : List (String × Value)) :
    sameFields ((name, v) :: rest) ys =
      ((ys.lookup name).any v.passesFor && sameFields rest ys) := by
  rw [sameFields]
  cases ys.lookup name <;> rfl

theorem sameFields_iff (xs : Table Value) {ys : Table Value} (hOnce : ys.keys.Nodup) :
    sameFields xs ys = true ↔
      ∀ x ∈ xs, ∃ y ∈ ys, x.1 = y.1 ∧ x.2.passesFor y.2 = true := by
  induction xs with
  | nil => simp [sameFields]
  | cons x rest ih =>
    obtain ⟨name, v⟩ := x
    have hFirst : (ys.lookup name).any v.passesFor = true ↔
        ∃ y ∈ ys, name = y.1 ∧ v.passesFor y.2 = true := by
      rw [Option.any_eq_true]
      constructor
      · rintro ⟨w, hFound, h⟩
        exact ⟨(name, w), Table.mem_of_get? hFound, rfl, h⟩
      · rintro ⟨⟨name, w⟩, hMem, rfl, h⟩
        exact ⟨w, Table.get?_of_mem hOnce hMem, h⟩
    rw [sameFields_cons, Bool.and_eq_true, hFirst, ih, List.forall_mem_cons]

theorem sameItems_comm {xs : List Value} (h : ∀ v ∈ xs, ∀ w, Distinct w → v.same w = w.same v)
    {ys : List Value} (hItems : ∀ w ∈ ys, Distinct w) : sameItems xs ys = sameItems ys xs := by
  induction xs generalizing ys with
  | nil => cases ys <;> simp [sameItems]
  | cons v xs ih =>
    cases ys with
    | nil => simp [sameItems]
    | cons w ys =>
      have hFirst := passesFor_comm (h v List.mem_cons_self w (hItems w List.mem_cons_self))
      have hRest := ih (fun u hMem => h u (List.mem_cons_of_mem _ hMem))
        fun u hMem => hItems u (List.mem_cons_of_mem _ hMem)
      rw [passesFor, passesFor] at hFirst
      rw [sameItems, sameItems, hFirst, hRest]

/-- One length, and what then holds of either list. -/
theorem and_comm_of_length {m n : Nat} {p q : Bool} (h : m = n → (p = true ↔ q = true)) :
    (m == n && p) = (n == m && q) := by
  rw [Bool.eq_iff_iff, Bool.and_eq_true, Bool.and_eq_true, beq_iff_eq, beq_iff_eq]
  constructor
  · rintro ⟨hSame, hLeft⟩
    exact ⟨hSame.symm, (h hSame).mp hLeft⟩
  · rintro ⟨hSame, hRight⟩
    exact ⟨hSame.symm, (h hSame.symm).mpr hRight⟩

/-- Equality is symmetric. -/
theorem same_comm {v : Value} (hv : Distinct v) {w : Value} (hw : Distinct w) :
    v.same w = w.same v := by
  induction hv generalizing w with
  | sole h => exact same_comm_of_hashable (.inl h)
  | @list xs _ ih =>
    cases hw with
    | sole h => exact same_comm_of_hashable (.inr h)
    | list hItems =>
      rw [same, same]
      exact sameItems_comm (fun v hMem w hw => ih v hMem hw) hItems
    | set | map | keyed => simp [same, quantity?]
  | @set xs hSole hApart =>
    cases hw with
    | sole h => exact same_comm_of_hashable (.inr h)
    | @set ys hSole' hApart' =>
      rw [same, same]
      refine and_comm_of_length fun hLength => ?_
      rw [sameMembers_iff, sameMembers_iff]
      refine matching_comm hLength ?_ ?_ ?_
      · intro x hMem y _
        rw [passesFor_comm (same_comm_of_hashable (.inl (hSole x hMem)))]
      · exact hApart.imp fun h y hMem => not_passesFor_of_apart (hSole' y hMem) h
      · exact hApart'.imp fun h x hMem => not_passesFor_of_apart (hSole x hMem) h
    | list | map | keyed => simp [same, quantity?]
  | @map xs hOnce _ ih =>
    cases hw with
    | sole h => exact same_comm_of_hashable (.inr h)
    | @map ys hOnce' h' =>
      rw [same, same]
      refine and_comm_of_length fun hLength => ?_
      rw [sameFields_iff _ hOnce', sameFields_iff _ hOnce]
      refine matching_comm hLength ?_ ?_ ?_
      · intro x hMem y hMem'
        rw [passesFor_comm (ih x hMem (h' y hMem')), eq_comm]
      · exact (List.pairwise_map.mp hOnce).imp fun h y _ hLeft hRight =>
          h (hLeft.1.trans hRight.1.symm)
      · exact (List.pairwise_map.mp hOnce').imp fun h y _ hLeft hRight =>
          h (hLeft.1.trans hRight.1.symm)
    | list | set | keyed => simp [same, quantity?]
  | @keyed xs hSole hApart _ ih =>
    cases hw with
    | sole h => exact same_comm_of_hashable (.inr h)
    | @keyed ys hSole' hApart' h' =>
      rw [same, same]
      refine and_comm_of_length fun hLength => ?_
      rw [sameEntries_iff, sameEntries_iff]
      refine matching_comm hLength ?_ ?_ ?_
      · intro x hMem y hMem'
        rw [passesFor_comm (ih x hMem (h' y hMem')),
          passesFor_comm (same_comm_of_hashable (.inl (hSole x hMem)))]
      · exact hApart.imp fun h y hMem hLeft hRight =>
          not_passesFor_of_apart (hSole' y hMem) h hLeft.1 hRight.1
      · exact hApart'.imp fun h x hMem hLeft hRight =>
          not_passesFor_of_apart (hSole x hMem) h hLeft.1 hRight.1
    | list | set | map => simp [same, quantity?]

end Value

end StepFlow
