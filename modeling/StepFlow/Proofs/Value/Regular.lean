import StepFlow.Table
import StepFlow.Value

/-! The parts of data, and regular data: mappings have each of their names once, and only texts for
names. -/
namespace StepFlow.Value

/-- One value stands in another at some depth, or is it. -/
inductive Part : Value → Value → Prop where
  | self (v : Value) : Part v v
  | item {v w : Value} {items : List Value} (hMem : w ∈ items) (h : Part v w) : Part v (.list items)
  | member {v w : Value} {members : List Value} (hMem : w ∈ members) (h : Part v w) :
      Part v (.set members)
  | field {v w : Value} {name : String} {fields : Table Value} (hMem : (name, w) ∈ fields)
      (h : Part v w) : Part v (.map fields)
  | entry {v w k : Value} {entries : List (Value × Value)} (hMem : (k, w) ∈ entries)
      (h : Part v w) : Part v (.keyed entries)

theorem Part.trans {u v w : Value} (h : Part u v) (hWhole : Part v w) : Part u w := by
  induction hWhole with
  | self => exact h
  | item hMem _ ih => exact .item hMem ih
  | member hMem _ ih => exact .member hMem ih
  | field hMem _ ih => exact .field hMem ih
  | entry hMem _ ih => exact .entry hMem ih

/-- What is given for a field stands in the data. -/
theorem Part.of_field {v data : Value} {fields : Table Value} {name : String}
    (hFields : data.fields? = some fields) (hMem : (name, v) ∈ fields) : Part v data := by
  unfold fields? at hFields
  split at hFields
  · cases hFields
    exact .field hMem (.self v)
  · cases hFields
    obtain ⟨⟨k, w⟩, hEntry, hText⟩ := List.mem_filterMap.mp hMem
    split at hText
    · cases hText
      exact .entry hEntry (.self _)
    · cases hText
  · cases hFields

theorem Part.of_items {v data : Value} {items : List Value}
    (hItems : data = .list items ∨ data = .set items) (hMem : v ∈ items) : Part v data := by
  rcases hItems with rfl | rfl
  · exact .item hMem (.self v)
  · exact .member hMem (.self v)

/-- Data in which each mapping has a name once. -/
def NamesOnce (data : Value) : Prop :=
  ∀ fields, Part (.map fields) data → (Table.keys fields).Nodup

theorem NamesOnce.of_part {v data : Value} (h : data.NamesOnce) (hPart : Part v data) :
    v.NamesOnce := fun fields hFields => h fields (hFields.trans hPart)

/-- Data whose mappings have each name once and have texts for names. -/
structure Regular (data : Value) : Prop where
  once : data.NamesOnce
  texts : ∀ entries, ¬ Part (.keyed entries) data

/-- A value that holds no other one is regular. -/
theorem Regular.of_sole {v : Value} (hSole : ∀ w, Part w v → w = v) (hNone : v.fields? = none) :
    v.Regular where
  once := by
    intro fields hPart
    rw [← hSole _ hPart] at hNone
    cases hNone
  texts := by
    intro entries hPart
    rw [← hSole _ hPart] at hNone
    cases hNone

theorem Regular.list {items : List Value} (h : ∀ v ∈ items, v.Regular) : (list items).Regular where
  once := by
    rintro fields (_ | ⟨hMem, hPart⟩)
    exact (h _ hMem).once fields hPart
  texts := by
    rintro entries (_ | ⟨hMem, hPart⟩)
    exact (h _ hMem).texts entries hPart

theorem Regular.map {fields : Table Value} (hOnce : fields.keys.Nodup)
    (h : ∀ entry ∈ fields, entry.2.Regular) : (map fields).Regular where
  once := by
    intro inner hPart
    cases hPart with
    | self => exact hOnce
    | field hMem hInside => exact (h _ hMem).once inner hInside
  texts := by
    intro entries hPart
    cases hPart with
    | field hMem hInside => exact (h _ hMem).texts entries hInside

end StepFlow.Value
