import StepFlow.Json.Writer

/-! Which values can be written as documents: those without an integer of too many digits, in whose
mappings every name has a form. What is shown as a text is asked for its integers only. -/
namespace StepFlow.Json

mutual

/-- Whether the names in the mappings of a value have a form in documents. -/
def hasNames : Value → Bool
  | .list items => itemsHaveNames items
  | .map fields => fieldsHaveNames fields
  | .keyed entries => entriesHaveNames entries
  | _ => true

def itemsHaveNames : List Value → Bool
  | [] => true
  | v :: rest => hasNames v && itemsHaveNames rest

def fieldsHaveNames : List (String × Value) → Bool
  | [] => true
  | (_, v) :: rest => hasNames v && fieldsHaveNames rest

def entriesHaveNames : List (Value × Value) → Bool
  | [] => true
  | (k, v) :: rest => isName k && hasNames v && entriesHaveNames rest

end

theorem nameObstacle?_eq_none_iff {k : Value} :
    nameObstacle? k = none ↔ isName k = true ∧ k.isWritable = true := by
  unfold nameObstacle?
  cases isName k <;> cases k.isWritable <;> simp

mutual

/-- A value can be written exactly when no integer in it has too many digits and all names have a
form. -/
theorem obstacle?_eq_none_iff :
    (v : Value) → (obstacle? v = none ↔ v.isWritable = true ∧ hasNames v = true)
  | .list items => by
      rw [obstacle?, Value.isWritable, hasNames]
      exact itemObstacle?_eq_none_iff items
  | .map fields => by
      rw [obstacle?, Value.isWritable, hasNames]
      exact fieldObstacle?_eq_none_iff fields
  | .keyed entries => by
      rw [obstacle?, Value.isWritable, hasNames]
      exact entryObstacle?_eq_none_iff entries
  | .int n => by
      have hNone : hasNames (.int n) = true := by simp [hasNames]
      rw [obstacle?, hNone]
      cases (Value.int n).isWritable <;> simp
  | .set members => by
      have hNone : hasNames (.set members) = true := by simp [hasNames]
      rw [obstacle?, hNone]
      cases (Value.set members).isWritable <;> simp
  | .null | .bool _ | .real _ | .nan _ | .text _ | .bytes _ | .timestamp _ | .record .. => by
      simp [obstacle?, Value.isWritable, hasNames]

theorem itemObstacle?_eq_none_iff : (items : List Value) →
    (itemObstacle? items = none ↔ Value.areWritable items = true ∧ itemsHaveNames items = true)
  | [] => by simp [itemObstacle?, Value.areWritable, itemsHaveNames]
  | v :: rest => by
      rw [itemObstacle?, Option.or_eq_none_iff, obstacle?_eq_none_iff v,
        itemObstacle?_eq_none_iff rest, Value.areWritable, itemsHaveNames, Bool.and_eq_true,
        Bool.and_eq_true]
      exact and_and_and_comm

theorem fieldObstacle?_eq_none_iff : (fields : List (String × Value)) →
    (fieldObstacle? fields = none ↔
      Value.fieldsWritable fields = true ∧ fieldsHaveNames fields = true)
  | [] => by simp [fieldObstacle?, Value.fieldsWritable, fieldsHaveNames]
  | (name, v) :: rest => by
      rw [fieldObstacle?, Option.or_eq_none_iff, obstacle?_eq_none_iff v,
        fieldObstacle?_eq_none_iff rest, Value.fieldsWritable, fieldsHaveNames, Bool.and_eq_true,
        Bool.and_eq_true]
      exact and_and_and_comm

theorem entryObstacle?_eq_none_iff : (entries : List (Value × Value)) →
    (entryObstacle? entries = none ↔
      Value.entriesWritable entries = true ∧ entriesHaveNames entries = true)
  | [] => by simp [entryObstacle?, Value.entriesWritable, entriesHaveNames]
  | (k, v) :: rest => by
      rw [entryObstacle?, Option.or_eq_none_iff, Option.or_eq_none_iff, nameObstacle?_eq_none_iff,
        obstacle?_eq_none_iff v, entryObstacle?_eq_none_iff rest, Value.entriesWritable,
        entriesHaveNames]
      simp only [Bool.and_eq_true]
      constructor
      · rintro ⟨⟨hName, hKey⟩, ⟨hValue, hNames⟩, hLater, hOthers⟩
        exact ⟨⟨⟨hKey, hValue⟩, hLater⟩, ⟨hName, hNames⟩, hOthers⟩
      · rintro ⟨⟨⟨hKey, hValue⟩, hLater⟩, ⟨hName, hNames⟩, hOthers⟩
        exact ⟨⟨hName, hKey⟩, ⟨hValue, hNames⟩, hLater, hOthers⟩

end

/-- A value is written exactly when nothing keeps it from that. -/
theorem write_eq_ok_or (style : Style) (v : Value) :
    (v.isWritable = true ∧ hasNames v = true ∧ ∃ s, write style v = .ok s) ∨
      ¬ (v.isWritable = true ∧ hasNames v = true) ∧ ∃ f, write style v = .error f := by
  rw [← and_assoc, ← obstacle?_eq_none_iff]
  unfold write
  cases hObstacle : obstacle? v with
  | none => exact .inl ⟨rfl, _, rfl⟩
  | some f => exact .inr ⟨nofun, f, rfl⟩

end StepFlow.Json
